import TerraDoc.Proofs.TemplateMirror

namespace TerraDoc.Hcl

/-- The blanks at the end of a line. -/
def isSpace (c : Char) : Bool :=
  isBlank c && c != '\n'

/-- How far a line goes on after the marker, up to a character that is not blank; nothing where
it ends. -/
def lineLength? (line : List Char) : Option Nat :=
  match line.drop (line.takeWhile isSpace).length with
  | '\n' :: _ => none
  | after => some ((line.takeWhile isSpace).length + (after.take 1).length)

/-- How far the next stretch of text goes, from some blanks and what stands after them; nothing
where the marker closes the heredoc. -/
def stretchLength? (marker blanks text : List Char) : Option Nat :=
  if blanks.contains '\n' then
    let shared := Reader.sharedLength marker text
    if shared < marker.length then some (blanks.length + shared)
    else (lineLength? (text.drop shared)).map (blanks.length + shared + ·)
  else some (blanks.length + 1)

theorem lineLength?_append {spaces : List Char} (blank : ∀ c ∈ spaces, isSpace c = true) {c : Char}
    (solid : isSpace c = false) (rest : List Char) :
    lineLength? (spaces ++ c :: rest) = if c = '\n' then none else some (spaces.length + 1) := by
  have taken : (spaces ++ c :: rest).takeWhile isSpace = spaces := by
    rw [List.takeWhile_append_of_pos blank, List.takeWhile_cons_of_neg (by simp [solid]),
      List.append_nil]
  rw [lineLength?, taken, List.drop_left]
  split
  · simp_all
  · simp_all

theorem lineLength?_spaces {spaces : List Char} (blank : ∀ c ∈ spaces, isSpace c = true) :
    lineLength? spaces = some spaces.length := by
  rw [lineLength?, List.takeWhile_eq_self_iff.mpr blank, List.drop_length]
  rfl

theorem lineLength?_level {line : List Char} {count : Nat} (found : lineLength? line = some count) :
    ∃ text rest, line = text ++ rest ∧ text.length = count ∧
      ∀ left, Level rest left → lineLength? (text ++ left) = some count := by
  obtain ⟨spaces, after, rfl, blank, ends⟩ := exists_longest isSpace line
  cases after with
  | nil =>
    refine ⟨spaces, [], rfl, ?_, fun left level => ?_⟩
    · rw [List.append_nil, lineLength?_spaces blank] at found
      exact Option.some.inj found
    · cases level
      exact found
  | cons c after =>
    have solid := ends c rfl
    rw [lineLength?_append blank solid] at found
    split at found
    · cases found
    · rename_i feed
      cases found
      refine ⟨spaces ++ [c], after, by simp, by simp, fun left _ => ?_⟩
      rw [List.append_assoc, List.singleton_append, lineLength?_append blank solid, if_neg feed]

theorem Alongside.lineLength?_none {line other : List Char} (alongside : Alongside line other)
    (ended : lineLength? line = none) : lineLength? other = none := by
  obtain ⟨spaces, after, rfl, blank, ends⟩ := exists_longest isSpace line
  cases after with
  | nil =>
    rw [List.append_nil, lineLength?_spaces blank] at ended
    cases ended
  | cons c after =>
    have solid := ends c rfl
    rw [lineLength?_append blank solid] at ended
    split at ended
    · rename_i feed
      subst feed
      obtain ⟨later, rfl, along⟩ := alongside.of_append fun c member => by
        have space := blank c member
        constructor <;> rintro rfl <;> cases space
      obtain ⟨rest, rfl, -⟩ := along.of_cons (by decide)
      rw [lineLength?_append blank solid, if_pos rfl]
    · cases ended

theorem sharedLength_append (marker text : List Char) :
    Reader.sharedLength marker (marker ++ text) = marker.length := by
  induction marker with
  | nil => cases text <;> rfl
  | cons c marker ih => rw [List.cons_append, Reader.sharedLength, if_pos rfl, ih, List.length_cons]

theorem append_of_sharedLength {marker text : List Char}
    (whole : ¬ Reader.sharedLength marker text < marker.length) :
    ∃ line, text = marker ++ line := by
  fun_induction Reader.sharedLength marker text with
  | case1 c marker text ih =>
    rw [List.length_cons, Nat.add_lt_add_iff_right] at whole
    obtain ⟨line, rfl⟩ := ih whole
    exact ⟨line, rfl⟩
  | case2 => exact absurd (Nat.zero_lt_succ _) whole
  | case3 marker text other =>
    cases marker with
    | nil => exact ⟨text, rfl⟩
    | cons c marker => exact absurd (Nat.zero_lt_succ _) whole

/-- What two texts have in common ends where the first character that differs stands. -/
theorem sharedLength_level {marker text : List Char}
    (short : Reader.sharedLength marker text < marker.length) :
    ∃ rest, text = marker.take (Reader.sharedLength marker text) ++ rest ∧
      ∀ left, Level rest left →
        Reader.sharedLength marker (marker.take (Reader.sharedLength marker text) ++ left) =
          Reader.sharedLength marker text := by
  fun_induction Reader.sharedLength marker text with
  | case1 marker c text ih =>
    rw [List.length_cons, Nat.add_lt_add_iff_right] at short
    obtain ⟨rest, split, image⟩ := ih short
    refine ⟨rest, congrArg (c :: ·) split, fun left level => ?_⟩
    rw [List.take_succ_cons, List.cons_append, Reader.sharedLength, if_pos rfl, image left level]
  | case2 c marker d text differs =>
    refine ⟨d :: text, rfl, fun left level => ?_⟩
    obtain ⟨left, rfl, -⟩ := level.next rfl
    rw [List.take_zero, List.nil_append, Reader.sharedLength, if_neg differs]
  | case3 marker text other =>
    cases text with
    | nil =>
      refine ⟨[], rfl, fun left level => ?_⟩
      cases level
      cases marker <;> rfl
    | cons d text =>
      cases marker with
      | nil => exact absurd short (Nat.not_lt_zero _)
      | cons c marker => exact absurd rfl (other c marker d text rfl)

theorem Level.begins {first : Char} {tail text rest left : List Char} (level : Level rest left)
    (split : first :: tail = text ++ rest) : ∃ tail', text ++ left = first :: tail' := by
  cases text with
  | nil =>
    obtain ⟨left, rfl, -⟩ := level.next split.symm
    exact ⟨left, rfl⟩
  | cons c text =>
    obtain ⟨rfl, -⟩ := List.cons.inj split
    exact ⟨text ++ left, rfl⟩

/-- How far a stretch goes hangs on what is in it and on the next character. -/
theorem stretchLength?_level {marker blanks tail : List Char} {first : Char} {count : Nat}
    (found : stretchLength? marker blanks (first :: tail) = some count) :
    ∃ text rest, blanks ++ first :: tail = text ++ rest ∧ text.length = count ∧ 1 ≤ count ∧
      ∀ left, Level rest left → ∃ tail', text ++ left = blanks ++ first :: tail' ∧
        stretchLength? marker blanks (first :: tail') = some count := by
  unfold stretchLength? at found ⊢
  split at found
  · rename_i feed
    have filled : 1 ≤ blanks.length := by
      cases blanks with
      | nil => cases feed
      | cons => exact Nat.le_add_left 1 _
    simp only [if_pos feed]
    dsimp only at found
    split at found
    · rename_i short
      obtain ⟨rest, split, image⟩ := sharedLength_level short
      cases found
      refine ⟨blanks ++ marker.take (Reader.sharedLength marker (first :: tail)), rest, ?_, ?_,
        by omega, fun left level => ?_⟩
      · rw [List.append_assoc, ← split]
      · rw [List.length_append, List.length_take, Nat.min_eq_left (Nat.le_of_lt short)]
      · obtain ⟨tail', begins⟩ := level.begins split
        refine ⟨tail', by rw [List.append_assoc, begins], ?_⟩
        rw [← begins, image left level, if_pos short]
    · rename_i whole
      obtain ⟨line, split⟩ := append_of_sharedLength whole
      rw [split, sharedLength_append, List.drop_left] at found
      obtain ⟨length, goes, rfl⟩ := Option.map_eq_some_iff.mp found
      obtain ⟨text, rest, rfl, rfl, image⟩ := lineLength?_level goes
      refine ⟨blanks ++ (marker ++ text), rest, ?_, ?_, by omega, fun left level => ?_⟩
      · rw [split, List.append_assoc, List.append_assoc]
      · rw [List.length_append, List.length_append, Nat.add_assoc]
      · obtain ⟨tail', begins⟩ := level.begins (split.trans (List.append_assoc ..).symm)
        refine ⟨tail', by rw [List.append_assoc, begins], ?_⟩
        rw [← begins, List.append_assoc, sharedLength_append, if_neg (Nat.lt_irrefl _),
          List.drop_left, image left level]
        rfl
  · rename_i feed
    simp only [if_neg feed]
    cases found
    exact ⟨blanks ++ [first], tail, by simp, by simp, by omega, fun left _ => ⟨left, by simp, rfl⟩⟩

theorem blanks_before {blanks : List Char} (blank : ∀ c ∈ blanks, isBlank c = true) {first : Char}
    (solid : isBlank first = false) (tail : List Char) :
    (blanks ++ first :: tail).takeWhile isBlank = blanks ∧
      (blanks ++ first :: tail).dropWhile isBlank = first :: tail := by
  constructor
  · rw [List.takeWhile_append_of_pos blank, List.takeWhile_cons_of_neg (by simp [solid]),
      List.append_nil]
  · rw [List.dropWhile_append_of_pos blank, List.dropWhile_cons_of_neg (by simp [solid])]

theorem heredocPart_blank (marker : List Char) (expression : Reader Expr) {blanks : List Char}
    (blank : ∀ c ∈ blanks, isBlank c = true) (p : Nat) (tokens : List Token) :
    Reader.heredocPart marker expression ⟨p, blanks ++ [], tokens⟩ = none := by
  have none : (blanks ++ []).dropWhile isBlank = [] := by
    rw [List.append_nil, List.dropWhile_eq_nil_iff.mpr blank]
  rw [Reader.heredocPart, Reader.get_run]
  dsimp only
  rw [none]
  rfl

theorem heredocPart_signed (marker : List Char) (expression : Reader Expr) {blanks : List Char}
    (blank : ∀ c ∈ blanks, isBlank c = true) {sign : Char} (template : isTemplateSign sign = true)
    (p : Nat) (after : List Char) (tokens : List Token) :
    Reader.heredocPart marker expression ⟨p, blanks ++ sign :: after, tokens⟩ =
      (Reader.take blanks.length >>= fun _ => Reader.signed expression sign after >>=
        fun parts => pure (some parts)) ⟨p, blanks ++ sign :: after, tokens⟩ := by
  have signs : sign = '$' ∨ sign = '%' := by simpa [isTemplateSign] using template
  have solid : isBlank sign = false := by rcases signs with rfl | rfl <;> rfl
  obtain ⟨before, rest⟩ := blanks_before blank solid after
  rw [Reader.heredocPart, Reader.get_run]
  dsimp only
  rw [before, rest]
  rcases signs with rfl | rfl <;> rfl

/-- A stretch of text, from its first character that is not blank. -/
theorem heredocPart_text (marker : List Char) (expression : Reader Expr) {blanks : List Char}
    (blank : ∀ c ∈ blanks, isBlank c = true) {first : Char} (solid : isBlank first = false)
    (plain : isTemplateSign first = false) (p : Nat) (tail : List Char) (tokens : List Token) :
    Reader.heredocPart marker expression ⟨p, blanks ++ first :: tail, tokens⟩ =
      (match stretchLength? marker blanks (first :: tail) with
        | some count => Reader.take count >>= fun _ => pure (some [])
        | none => pure none) ⟨p, blanks ++ first :: tail, tokens⟩ := by
  obtain ⟨before, after⟩ := blanks_before blank solid tail
  rw [isTemplateSign, Bool.or_eq_false_iff, beq_eq_false_iff_ne, beq_eq_false_iff_ne] at plain
  rw [Reader.heredocPart, Reader.get_run]
  dsimp only
  rw [before, after]
  refine congrFun ?_ _
  split
  · simp_all
  · simp_all
  · simp_all
  · unfold stretchLength?
    split
    · dsimp only
      split
      · rfl
      · rw [lineLength?]
        delta isSpace
        generalize List.drop _ (List.drop _ _) = line
        split <;> simp_all [Nat.add_assoc]
    · rfl

theorem stretchLength?_eq_none {marker blanks text : List Char} :
    stretchLength? marker blanks text = none ↔
      blanks.contains '\n' ∧ ∃ line, text = marker ++ line ∧ lineLength? line = none := by
  unfold stretchLength?
  dsimp only
  constructor
  · intro ended
    split at ended
    · split at ended
      · cases ended
      · rename_i feed whole
        obtain ⟨line, rfl⟩ := append_of_sharedLength whole
        rw [sharedLength_append, List.drop_left] at ended
        exact ⟨feed, line, rfl, Option.map_eq_none_iff.mp ended⟩
    · cases ended
  · rintro ⟨feed, line, rfl, ended⟩
    rw [if_pos feed, sharedLength_append, if_neg (Nat.lt_irrefl _), List.drop_left, ended]
    rfl

theorem mark_clear {marker : List Char} (marks : ∀ c ∈ marker, Reader.isMarkerChar c = true) :
    ∀ c ∈ marker, c ≠ '#' ∧ c ≠ '/' := by
  intro c member
  have mark := marks c member
  constructor <;> rintro rfl <;> cases mark

theorem Level.prepend (text : List Char) {rest left : List Char} (level : Level rest left) :
    Level (text ++ rest) (text ++ left) := by
  cases text with
  | nil => exact level
  | cons c text => exact .cons c (level.alongside.append text)

namespace Mirrors

variable {ι : Type} {room most : Nat} {c : Cursor} {expression other : Reader Expr}

/-- The next stretch of a heredoc. -/
theorem heredocPart (inner : MirrorsWithin room expression other) (le : most ≤ room)
    {marker : List Char} (filled : marker ≠ []) (marks : ∀ c ∈ marker, Reader.isMarkerChar c = true) :
    Mirrors Level Level (fun found => found.elim 0 fun _ => 1) most
      (Reader.heredocPart marker expression) (fun _ : ι => Reader.heredocPart marker other)
      (Option.Rel PartsAlike) c := by
  obtain ⟨p, rest, tokens⟩ := c
  obtain ⟨blanks, after, rfl, blank, ends⟩ := exists_longest isBlank rest
  cases after with
  | nil =>
    intro a d run
    rw [heredocPart_blank marker expression blank] at run
    cases run
  | cons first tail =>
    have solid := ends first rfl
    have clear := blank_clear blank
    cases template : isTemplateSign first with
    | true =>
      have step := heredocPart_signed marker expression blank template
      have step' := heredocPart_signed marker other blank template
      refine of_run (fun _ => Reader.take blanks.length >>= fun _ =>
        Reader.signed other first tail >>= fun parts => Pure.pure (some parts)) ?_
          (step p tail tokens) fun text level _ q more => ?_
      · refine (take blanks rfl fun _ => Level.prepend blanks).andThen fun _ d run => ?_
        have split : d.rest = first :: tail := by
          cases run
          exact List.drop_left
        refine (signed inner (by omega) template split).bind fun parts _ _ =>
          pure (fun i => .some i.2.2) ?_
        exact Nat.sub_eq_zero_of_le (Nat.sub_le _ _)
      · obtain ⟨left, rfl, along⟩ := level.alongside.of_append clear
        obtain ⟨tail', rfl, later⟩ := along.of_cons (by
          constructor <;> rintro rfl <;> cases template)
        rw [step', signed_eq other template later]
    | false =>
      have text (expression : Reader Expr) := heredocPart_text marker expression blank solid template
      cases found : stretchLength? marker blanks (first :: tail) with
      | none =>
        refine piece none [] [] rfl ?_ (by simp) (Nat.le_refl 0) (fun _ => id)
          fun left level _ p tokens => ⟨none, tokens, ?_, .none⟩
        · rw [text, found]
          rfl
        · obtain ⟨left, rfl, along⟩ := level.alongside.of_append clear
          obtain ⟨feed, line, whole, ended⟩ := stretchLength?_eq_none.mp found
          rw [whole] at along
          obtain ⟨line', rfl, later⟩ := along.of_append (mark_clear marks)
          obtain ⟨tail', begins⟩ : ∃ tail', marker ++ line' = first :: tail' := by
            cases marker with
            | nil => exact absurd rfl filled
            | cons c marker => exact ⟨marker ++ line', by rw [(List.cons.inj whole).1]; rfl⟩
          have closes : stretchLength? marker blanks (first :: tail') = none :=
            stretchLength?_eq_none.mpr ⟨feed, line', begins.symm, later.lineLength?_none ended⟩
          rw [List.nil_append, begins, text, closes]
          rfl
      | some count =>
        obtain ⟨stretch, rest, split, rfl, one, image⟩ := stretchLength?_level found
        refine piece (some []) stretch [] split ?_ (by simp) one (fun left level => ?_)
          fun left level _ p tokens => ⟨some [], tokens, ?_, .some rfl⟩
        · rw [text, found]
          show some (some [], (⟨p + stretch.length, (blanks ++ first :: tail).drop stretch.length,
            tokens⟩ : Cursor)) = _
          rw [split, List.drop_left]
          rfl
        · rw [split]
          exact level.prepend stretch
        · obtain ⟨tail', begins, same⟩ := image left level
          rw [begins, text, same]
          show some (some [], (⟨p + stretch.length, (blanks ++ first :: tail').drop stretch.length,
            tokens⟩ : Cursor)) = _
          rw [← begins, List.drop_left]

end Mirrors

/-- The beginning of a heredoc: whether it is indented, and its marker. -/
def Reader.heredocHead : Reader (Bool × List Char) := do
  let start ← get
  let indented := "<<-".toList.isPrefixOf start.rest
  take (if indented then 3 else 2)
  take ((← get).rest.takeWhile isBlank).length
  let marker := (← get).rest.takeWhile isMarkerChar
  if marker.isEmpty then failure
  take marker.length
  return (indented, marker)

/-- The body of a heredoc, up to the marker that closes it. -/
def Reader.heredocBody (bound : Nat) (expression : Reader Expr) (marker : List Char) :
    Reader (List Part) := do
  let stretches ← Reading.repeated bound (heredocPart marker expression)
  take ((← get).rest.takeWhile isBlank).length
  return stretches.flatten

/-- What a heredoc is read as, to the end of the marker that closes it. -/
def Reader.heredocText (bound : Nat) (expression : Reader Expr) :
    Reader (Bool × List Part × Slice) := do
  let (indented, marker) ← heredocHead
  let (parts, body) ← (heredocBody bound expression marker).spanned
  take marker.length
  return (indented, parts, body)

/-- What a heredoc with such parts is. -/
def Reader.heredocOf (indented : Bool) (parts : List Part) (body slice : Slice) : Reader Expr :=
  if parts.isEmpty then return .heredoc slice indented body
  else if balanced parts then return .heredocTemplate slice (parts.flatMap Part.inside)
  else failure

theorem Reader.heredoc_eq (bound : Nat) (expression : Reader Expr) :
    heredoc bound expression = apart (heredocText bound expression).spanned >>= fun x =>
      keep (.heredoc x.1.2 x.2) >>= fun _ => heredocOf x.1.1.1 x.1.1.2.1 x.1.1.2.2 x.1.2 := by
  funext c
  obtain ⟨p, rest, tokens⟩ := c
  simp only [heredoc, apart, heredocText, spanned, heredocHead, heredocBody, Reader.take,
    Reader.sliceFrom, Reader.keep, Bind.bind, StateT.bind, MonadState.get, getThe,
    MonadStateOf.get, StateT.get, Option.pure_def, Option.bind_some]
  generalize (if "<<-".toList.isPrefixOf rest then 3 else 2) = signs
  split
  · rfl
  · simp only [StateT.bind, apart, Reader.take, StateT.get, Bind.bind, Option.pure_def,
      Option.bind_some, Option.bind_assoc, Reader.keep]
    rfl

/-- The texts that begin a heredoc, from the signs to the marker. -/
structure HeadText (indented : Bool) (marker dash blanks : List Char) : Prop where
  dash : dash = if indented then ['-'] else []
  single : indented = false → (blanks ++ marker).head? ≠ some '-'
  blank : ∀ c ∈ blanks, isBlank c = true
  filled : marker ≠ []
  marks : ∀ c ∈ marker, Reader.isMarkerChar c = true

theorem not_blank_of_mark {c : Char} (mark : Reader.isMarkerChar c = true) : isBlank c = false := by
  have other := (Exponent.isMarkerChar_not_blank mark).1
  simp only [Text.isBlank, Bool.or_eq_false_iff] at other
  rw [isBlank, Bool.or_eq_false_iff]
  tauto

theorem Reader.heredocHead_eq (p : Nat) (text : List Char) (tokens : List Token) :
    heredocHead ⟨p, text, tokens⟩ =
      let indented := "<<-".toList.isPrefixOf text
      let count := if indented then 3 else 2
      let blanks := (text.drop count).takeWhile isBlank
      let word := (text.drop count).drop blanks.length
      let marker := word.takeWhile isMarkerChar
      if marker.isEmpty then none
      else some ((indented, marker),
        ⟨p + count + blanks.length + marker.length, word.drop marker.length, tokens⟩) := by
  simp only [heredocHead, Reader.take, Bind.bind, StateT.bind, MonadState.get, getThe,
    MonadStateOf.get, StateT.get, Option.pure_def, Option.bind_some]
  generalize (if "<<-".toList.isPrefixOf text then 3 else 2) = count
  split <;> rfl

/-- A heredoc begins with its signs and its marker. -/
theorem HeadText.reads {indented : Bool} {marker dash blanks rest : List Char}
    (head : HeadText indented marker dash blanks)
    (ends : ∀ c ∈ rest.head?, Reader.isMarkerChar c = false) (p : Nat) (tokens : List Token) :
    Reader.heredocHead ⟨p, ['<', '<'] ++ dash ++ blanks ++ marker ++ rest, tokens⟩ =
      some ((indented, marker),
        ⟨p + (['<', '<'] ++ dash ++ blanks ++ marker).length, rest, tokens⟩) := by
  obtain ⟨first, tail, rfl⟩ := List.exists_cons_of_ne_nil head.filled
  have mark := head.marks first List.mem_cons_self
  have signs : "<<-".toList.isPrefixOf (['<', '<'] ++ dash ++ blanks ++ first :: tail ++ rest) =
      indented := by
    rw [head.dash]
    cases indented with
    | true => rfl
    | false =>
      have single := head.single rfl
      have other {c : Char} {text : List Char} (differs : c ≠ '-') :
          "<<-".toList.isPrefixOf ('<' :: '<' :: c :: text) = false :=
        show ('-' == c && true) = false by rw [beq_false_of_ne differs.symm, Bool.false_and]
      cases blanks with
      | nil => exact other fun same => single (congrArg some same)
      | cons c blanks => exact other fun same => single (congrArg some same)
  have count : (if indented then 3 else 2) = (['<', '<'] ++ dash).length := by
    rw [head.dash]
    cases indented <;> rfl
  have after : (['<', '<'] ++ dash ++ blanks ++ first :: tail ++ rest).drop
      (['<', '<'] ++ dash).length = blanks ++ first :: (tail ++ rest) := by
    rw [List.append_assoc, List.append_assoc, List.drop_left]
    rfl
  have marker : (first :: (tail ++ rest)).takeWhile Reader.isMarkerChar = first :: tail := by
    rw [← List.cons_append, List.takeWhile_append_of_pos head.marks]
    cases rest with
    | nil => rw [List.takeWhile_nil, List.append_nil]
    | cons c rest => rw [List.takeWhile_cons_of_neg (by simp [ends c rfl]), List.append_nil]
  rw [Reader.heredocHead_eq]
  dsimp only
  rw [signs, count, after, (blanks_before head.blank (not_blank_of_mark mark) _).1, List.drop_left,
    marker]
  simp [Nat.add_assoc, Nat.add_comm, Nat.add_left_comm]

theorem heredocHead_text {c d : Cursor} {rest : List Char} (split : c.rest = '<' :: '<' :: rest)
    {indented : Bool} {marker : List Char}
    (run : Reader.heredocHead c = some ((indented, marker), d)) :
    ∃ dash blanks, HeadText indented marker dash blanks ∧
      c.rest = ['<', '<'] ++ dash ++ blanks ++ marker ++ d.rest ∧ d.tokens = c.tokens ∧
      ∀ c ∈ d.rest.head?, Reader.isMarkerChar c = false := by
  obtain ⟨p, _, tokens⟩ := c
  cases split
  obtain ⟨dash, after, rfl, signs, dropped⟩ : ∃ dash after, rest = dash ++ after ∧
      (dash = if "<<-".toList.isPrefixOf ('<' :: '<' :: rest) then ['-'] else []) ∧
      (if "<<-".toList.isPrefixOf ('<' :: '<' :: rest) then 3 else 2) = 2 + dash.length := by
    cases starts : "<<-".toList.isPrefixOf ('<' :: '<' :: rest) with
    | true =>
      obtain ⟨after, same⟩ := List.isPrefixOf_iff_prefix.mp starts
      cases same
      exact ⟨['-'], after, rfl, rfl, rfl⟩
    | false => exact ⟨[], rest, rfl, rfl, rfl⟩
  have whole : ('<' :: '<' :: (dash ++ after)).drop (2 + dash.length) = after := by
    rw [Nat.add_comm]
    exact List.drop_left
  rw [Reader.heredocHead_eq] at run
  dsimp only at run
  rw [dropped, whole] at run
  split at run
  · cases run
  · rename_i filled
    obtain ⟨word, blanked, -⟩ := takeWhile_split isBlank after
    obtain ⟨left, marked, ends⟩ := takeWhile_split Reader.isMarkerChar word
    rw [drop_takeWhile blanked] at run filled
    rw [drop_takeWhile marked] at run
    cases run
    have split : after = after.takeWhile isBlank ++ word.takeWhile Reader.isMarkerChar ++ left := by
      rw [List.append_assoc, ← marked, ← blanked]
    refine ⟨dash, after.takeWhile isBlank, ⟨signs, fun single begins => ?_,
      fun _ => List.mem_takeWhile_imp, by simpa using filled, fun _ => List.mem_takeWhile_imp⟩, ?_,
      rfl, ends⟩
    · obtain ⟨more, same⟩ := List.head?_eq_some_iff.mp begins
      rw [same] at split
      obtain rfl : dash = [] := by rw [signs, single]; rfl
      rw [split] at single
      cases single
    · conv_lhs => rw [split]
      simp only [List.append_assoc, List.cons_append, List.nil_append]

theorem heredocPart_findsPlain (marker : List Char) (expression : Reader Expr) (c : Cursor) :
    FindsPlain (· = []) (Reader.heredocPart marker expression) c := by
  refine .get ?_
  dsimp only
  split
  · exact .failure
  · exact .taken fun _ => .signed _ _ _
  · exact .taken fun _ => .signed _ _ _
  · split
    · split
      · exact .taken fun _ => .given
      · split
        · exact .done
        · exact .taken fun _ => .given
    · exact .taken fun _ => .given

/-- A heredoc ends before blanks, its marker, and the end of the line. -/
theorem heredocPart_closes {marker : List Char} (expression : Reader Expr) (c : Cursor) :
    StopsAt (Reader.heredocPart marker expression) c fun d =>
      ∃ blanks line, d.rest = blanks ++ (marker ++ line) ∧ ∀ c ∈ blanks, isBlank c = true := by
  obtain ⟨p, rest, tokens⟩ := c
  obtain ⟨blanks, after, rfl, blank, ends⟩ := exists_longest isBlank rest
  intro d run
  cases after with
  | nil =>
    rw [heredocPart_blank marker expression blank] at run
    cases run
  | cons first tail =>
    have solid := ends first rfl
    cases template : isTemplateSign first with
    | true =>
      rw [heredocPart_signed marker expression blank template] at run
      obtain ⟨⟨⟩, e, -, run⟩ := Reader.bind_run run
      obtain ⟨parts, e, -, ended⟩ := Reader.bind_run run
      cases ended
    | false =>
      rw [heredocPart_text marker expression blank solid template] at run
      cases found : stretchLength? marker blanks (first :: tail) with
      | none =>
        rw [found] at run
        cases run
        obtain ⟨-, line, whole, -⟩ := stretchLength?_eq_none.mp found
        exact ⟨blanks, line, by rw [whole], blank⟩
      | some count =>
        rw [found] at run
        cases run

namespace Mirrors

variable {ι : Type} {room most : Nat} {c : Cursor} {expression other : Reader Expr}

theorem heredocHead {rest : List Char} (split : c.rest = '<' :: '<' :: rest) :
    Mirrors Level Level (fun _ => 1) most Reader.heredocHead (fun _ : ι => Reader.heredocHead) Eq
      c := by
  rintro ⟨indented, marker⟩ d run
  obtain ⟨dash, blanks, head, whole, -, ends⟩ := heredocHead_text split run
  obtain ⟨p, _, tokens⟩ := c
  cases whole
  have still (left : List Char) (level : Level d.rest left) :
      ∀ c ∈ left.head?, Reader.isMarkerChar c = false := by
    intro c first
    generalize d.rest = after at level ends
    cases level with
    | nil => cases first
    | cons e => exact ends _ first
  have mirrors : Mirrors Level Level (fun _ => 1) most Reader.heredocHead
      (fun _ : ι => Reader.heredocHead) Eq
      ⟨p, ['<', '<'] ++ dash ++ blanks ++ marker ++ d.rest, tokens⟩ :=
    piece (indented, marker) (['<', '<'] ++ dash ++ blanks ++ marker) [] rfl
      (head.reads ends p tokens) (by simp) (Nat.le_add_left 1 _) (fun _ => Level.prepend _)
      fun left level _ q more => ⟨_, more, head.reads (still left level) q more, rfl⟩
  exact mirrors _ d run

theorem heredocBody (inner : MirrorsWithin room expression other) (le : most ≤ room) (bound : Nat)
    {bound' : Nat} (enough : most ≤ bound') {marker : List Char} (filled : marker ≠ [])
    (marks : ∀ c ∈ marker, Reader.isMarkerChar c = true) :
    Mirrors Level Level (fun _ => 0) most (Reader.heredocBody bound expression marker)
      (fun _ : ι => Reader.heredocBody bound' other marker) PartsAlike c := by
  refine (repeated (fun fewer c few => heredocPart inner (by omega) filled marks) bound
    enough).bind fun stretches d run => ?_
  obtain ⟨last, ended⟩ := repeated_last run
  obtain ⟨blanks, line, split, blank⟩ := heredocPart_closes expression last d ended
  obtain ⟨first, tail, rfl⟩ := List.exists_cons_of_ne_nil filled
  have solid := not_blank_of_mark (marks first List.mem_cons_self)
  have taken (line : List Char) :
      (blanks ++ (first :: tail ++ line)).takeWhile isBlank = blanks :=
    (blanks_before blank solid (tail ++ line)).1
  refine get.bindSame ?_
  rintro _ _ ⟨⟩
  refine ⟨fun i b level => ?_, ?_⟩
  · rw [split] at level ⊢
    obtain ⟨left, same, along⟩ := level.alongside.of_append (blank_clear blank)
    obtain ⟨line', rfl, -⟩ := along.of_append (mark_clear marks)
    rw [same, taken, taken]
  · rw [split, taken]
    exact (take blanks split fun _ level => split ▸ level.prepend blanks).andThen fun _ _ _ =>
      pure (fun i => .flatten i.2.2) (Nat.zero_sub _)

end Mirrors

theorem heredocBody_run {bound : Nat} {expression : Reader Expr} {marker : List Char}
    {c d : Cursor} {parts : List Part} (filled : marker ≠ [])
    (marks : ∀ c ∈ marker, Reader.isMarkerChar c = true)
    (run : Reader.heredocBody bound expression marker c = some (parts, d)) :
    (∃ line, d.rest = marker ++ line) ∧ (parts = [] → OnlyPlain c d) := by
  obtain ⟨stretches, e, repeats, after⟩ := Reader.bind_run run
  obtain ⟨last, ended⟩ := repeated_last repeats
  obtain ⟨blanks, line, split, blank⟩ := heredocPart_closes expression last e ended
  obtain ⟨first, tail, rfl⟩ := List.exists_cons_of_ne_nil filled
  have taken := (blanks_before blank (not_blank_of_mark (marks first List.mem_cons_self))
    (tail ++ line)).1
  rw [← List.cons_append, ← split] at taken
  cases after
  refine ⟨⟨line, ?_⟩, fun none => ?_⟩
  · show e.rest.drop (e.rest.takeWhile isBlank).length = _
    rw [taken, split, List.drop_left]
  · have only := FindsPlain.repeated (heredocPart_findsPlain (first :: tail) expression) repeats
      (List.flatten_eq_nil_iff.mp none)
    exact only

namespace Mirrors

variable {ι : Type} {room most : Nat} {c : Cursor} {expression other : Reader Expr}

theorem heredocText (inner : MirrorsWithin room expression other) (le : most ≤ room + 1) (bound : Nat)
    {bound' : Nat} (enough : most ≤ bound' + 1) {rest : List Char}
    (split : c.rest = '<' :: '<' :: rest) :
    Mirrors Level LevelAhead (fun _ => 1) most (Reader.heredocText bound expression)
      (fun _ : ι => Reader.heredocText bound' other)
      (fun a b => a.1 = b.1 ∧ PartsAlike a.2.1 b.2.1 ∧ (a.2.1 = [] → a.2.2.text = b.2.2.text)) c := by
  refine (heredocHead split).bindEq fun (indented, marker) d run => ?_
  obtain ⟨dash, blanks, head, -⟩ := heredocHead_text split run
  refine ((heredocBody inner (by omega) bound (by omega) head.filled head.marks).spanned (· = [])
    fun _ _ run => (heredocBody_run head.filled head.marks run).2).bind fun (parts, body) e run => ?_
  obtain ⟨line, next⟩ := (heredocBody_run head.filled head.marks (Reader.spanned_run run).1).1
  exact (takeLevel LevelAhead.sound marker next head.filled).andThen fun _ _ _ =>
    pure (fun i => ⟨rfl, i.2.2⟩) (Nat.zero_sub _)

end Mirrors

theorem heredocText_onlyPlain {bound : Nat} {expression : Reader Expr} {c d : Cursor}
    {rest : List Char} (split : c.rest = '<' :: '<' :: rest) {a : Bool × List Part × Slice}
    (run : Reader.heredocText bound expression c = some (a, d)) (none : a.2.1 = []) :
    OnlyPlain c d := by
  obtain ⟨⟨indented, marker⟩, e, headed, after⟩ := Reader.bind_run run
  obtain ⟨dash, blanks, head, -, kept, -⟩ := heredocHead_text split headed
  obtain ⟨⟨parts, body⟩, f, bodied, ended⟩ := Reader.bind_run after
  obtain ⟨⟨⟩, g, taken, given⟩ := Reader.bind_run ended
  have only := (heredocBody_run head.filled head.marks (Reader.spanned_run bodied).1).2
  cases taken
  cases given
  have headOnly : OnlyPlain c e := ⟨[], kept, by simp⟩
  exact headOnly.trans (only none)

/-- What a heredoc with parts that are alike is. -/
theorem heredocOf_alike {indented : Bool} {parts others : List Part} {body slice body' slice' : Slice}
    {c d : Cursor} {e : Expr} (run : Reader.heredocOf indented parts body slice c = some (e, d))
    (alike : PartsAlike parts others)
    (same : parts = [] → body.text = body'.text ∧ slice.text = slice'.text) (there : Cursor) :
    d = c ∧ ∃ e', Reader.heredocOf indented others body' slice' there = some (e', there) ∧
      e.Alike e' := by
  unfold Reader.heredocOf at run ⊢
  rw [← alike.isEmpty, ← alike.balanced]
  split at run
  · rename_i empty
    cases run
    obtain ⟨bodies, slices⟩ := same (List.isEmpty_iff.mp empty)
    refine ⟨rfl, _, by rw [if_pos empty]; rfl, ?_⟩
    simp [Expr.Alike, Expr.stripped, Slice.unplaced, bodies, slices]
  · rename_i filled
    split at run
    · rename_i matched
      cases run
      refine ⟨rfl, _, by rw [if_neg filled, if_pos matched]; rfl, ?_⟩
      simp [Expr.Alike, Expr.stripped, Expr.strippedItems_eq, alike.inside]
    · cases run

theorem Passed.heredoc {c d : Cursor} {other : List Char}
    (passed : Passed ⟨c.position, c.rest, []⟩ d other) :
    Passed c ⟨d.position, d.rest, .heredoc ⟨c.position, c.rest.take (d.position - c.position)⟩
      d.tokens.reverse :: c.tokens⟩ other := by
  obtain ⟨text, tokens, split, position, kept, spacing⟩ := passed
  dsimp only at split position spacing
  have taken : c.rest.take (d.position - c.position) = text := by
    rw [split, position, Nat.add_sub_cancel_left, List.take_left]
  have inside : d.tokens.reverse = tokens := by
    rw [kept, List.append_nil, List.reverse_reverse]
  rw [taken, inside]
  refine ⟨text, [.heredoc ⟨c.position, text⟩ tokens], split, position, rfl, ?_⟩
  have whole := @Spacing.heredoc ⟨c.position, text⟩ [] other [] tokens [] spacing (.nil _)
  rwa [List.append_nil, List.append_nil] at whole

namespace Mirrors

variable {ι : Type} {room most : Nat} {c : Cursor} {expression expression' : Reader Expr}

/-- A heredoc from its opening signs on. -/
theorem heredoc (inner : MirrorsWithin room expression expression') (le : most ≤ room + 1) (bound : Nat)
    {bound' : Nat} (enough : most ≤ bound' + 1) {rest : List Char}
    (split : c.rest = '<' :: '<' :: rest) :
    Mirrors Level LevelAhead (fun _ => 1) most (Reader.heredoc bound expression)
      (fun _ : ι => Reader.heredoc bound' expression') Expr.Alike c := by
  rw [Reader.heredoc_eq, Reader.heredoc_eq]
  intro e finish run left ahead
  obtain ⟨⟨⟨⟨indented, parts, body⟩, slice⟩, inside⟩, d, aparted, after⟩ := Reader.bind_run run
  obtain ⟨⟨⟨x, slice'⟩, there⟩, spans, given⟩ := Option.bind_eq_some_iff.mp aparted
  cases given
  obtain ⟨⟨⟩, kept, keeps, ended⟩ := Reader.bind_run after
  cases keeps
  have text := (heredocText inner le bound enough split : Mirrors Level LevelAhead _ most _
    (fun _ : ι => _) _ ⟨c.position, c.rest, []⟩).spanned (fun a => a.2.1 = []) fun a e run =>
      @heredocText_onlyPlain bound expression ⟨c.position, c.rest, []⟩ e rest split a run
  obtain ⟨rfl, -⟩ := heredocOf_alike ended (rfl : PartsAlike parts parts)
    (fun _ => ⟨rfl, rfl⟩) c
  obtain ⟨span, place⟩ := Reader.spanned_run spans
  obtain ⟨other, passed, long, here, image⟩ := text _ _ spans left ahead
  refine ⟨other, ?_, long, here, fun short i p tokens => ?_⟩
  · rw [place]
    exact passed.heredoc
  · obtain ⟨⟨⟨indented', parts', body'⟩, slice''⟩, tokens', run', ⟨same, like, bodies⟩, slices⟩ :=
      image short i p []
    obtain rfl : indented = indented' := same
    obtain ⟨-, e', ended', alike⟩ := heredocOf_alike ended like
      (fun none => ⟨bodies none, slices none⟩)
      ⟨p + other.length, left, .heredoc slice'' tokens'.reverse :: tokens⟩
    have aparted : (Reader.apart (Reader.heredocText bound' expression').spanned)
        ⟨p, other ++ left, tokens⟩ = some ((((indented, parts', body'), slice''), tokens'.reverse),
          ⟨p + other.length, left, tokens⟩) := by
      show ((Reader.heredocText bound' expression').spanned _).bind _ = _
      rw [show (Reader.heredocText bound' expression').spanned ⟨p, other ++ left, []⟩ = _ from run']
      rfl
    refine ⟨e', .heredoc slice'' tokens'.reverse :: tokens, ?_, alike⟩
    show ((Reader.apart _ ⟨p, other ++ left, tokens⟩).bind _) = _
    rw [aparted]
    exact ended'

end Mirrors

end TerraDoc.Hcl
