import TerraDoc.Proofs.HeredocTracking
import TerraDoc.Proofs.ReaderMirror
import TerraDoc.Proofs.StrippedSyntax

namespace TerraDoc.Hcl

/-- Expressions that differ at most in their places and in the texts of what they are made of. -/
def Expr.Alike (first second : Expr) : Prop :=
  first.stripped = second.stripped

/-- What a template holds, without places. -/
def Part.stripped : Part → Part
  | .interpolation inside => .interpolation (inside.map Expr.stripped)
  | .directive tag inside => .directive tag (inside.map Expr.stripped)

/-- Parts that differ at most as their expressions do. -/
def PartsAlike (first second : List Part) : Prop :=
  first.map Part.stripped = second.map Part.stripped

/-- How the expressions inside a construct are read where comments are spaces, if not too much is
left of the text. -/
def MirrorsWithin (room : Nat) (expression other : Reader Expr) : Prop :=
  ∀ {ι : Type} (fewer : Nat) (c : Cursor), fewer ≤ room →
    Mirrors LevelAhead LevelAhead (fun _ => 1) fewer expression (fun _ : ι => other) Expr.Alike c

theorem PartsAlike.inside {first second : List Part} (alike : PartsAlike first second) :
    (first.flatMap Part.inside).map Expr.stripped =
      (second.flatMap Part.inside).map Expr.stripped := by
  have same (part : Part) : part.inside.map Expr.stripped = part.stripped.inside := by
    cases part <;> rfl
  rw [List.map_flatMap, List.map_flatMap]
  simp only [same]
  rw [← List.flatMap_map, alike, List.flatMap_map]

theorem balancedFrom_stripped (opened : List Tag) (parts : List Part) :
    balancedFrom opened (parts.map Part.stripped) = balancedFrom opened parts := by
  fun_induction balancedFrom opened parts with
  | case1 => rfl
  | case2 opened inside rest ih => simpa [balancedFrom, Part.stripped] using ih
  | _ => simp_all [balancedFrom, Part.stripped]

theorem PartsAlike.balanced {first second : List Part} (alike : PartsAlike first second) :
    balanced first = balanced second := by
  rw [TerraDoc.Hcl.balanced, ← balancedFrom_stripped, alike, balancedFrom_stripped]
  rfl

theorem PartsAlike.isEmpty {first second : List Part} (alike : PartsAlike first second) :
    first.isEmpty = second.isEmpty := by
  rw [← List.isEmpty_map, alike, List.isEmpty_map]

theorem PartsAlike.flatten {first second : List (List Part)}
    (alike : List.Forall₂ PartsAlike first second) : PartsAlike first.flatten second.flatten := by
  have same := forall₂_map_eq.mp alike
  rw [PartsAlike, List.map_flatten, List.map_flatten, same]

/-- What a sign begins by the two characters after it. -/
theorem signed_cons (expression : Reader Expr) (sign c : Char) (rest : List Char) :
    Reader.signed expression sign (c :: rest) =
      if c = '{' then do
        let _ ← Reader.token .opening 2
        if sign = '$' then return [← Reader.interpolation expression]
        else return [← Reader.directive expression]
      else do
        let _ ← Reader.token .text
          (if c = sign then (if ['{'].isPrefixOf rest then 3 else 2) else 1)
        return [] := by
  by_cases brace : c = '{'
  · subst brace
    rw [Reader.signed, if_pos rfl]
  · rw [if_neg brace]
    unfold Reader.signed
    split
    · simp_all
    · rename_i same
      obtain ⟨rfl, rfl⟩ := List.cons.inj same
      simp
    · rename_i next same
      obtain ⟨rfl, rfl⟩ := List.cons.inj same
      cases rest with
      | nil => simp
      | cons d rest =>
        have other : '{' ≠ d := by
          rintro rfl
          exact next _ rfl
        simp [other]
    · simp_all

theorem signed_eq (expression : Reader Expr) {sign : Char} (template : isTemplateSign sign = true)
    {after other : List Char} (alongside : Alongside after other) :
    Reader.signed expression sign after = Reader.signed expression sign other := by
  have differs {c : Char} (opens : c = '#' ∨ c = '/' ∨ c = ' ') : c ≠ sign := by
    rintro rfl
    rcases opens with rfl | rfl | rfl <;> cases template
  cases alongside with
  | nil => rfl
  | cons c later => rw [signed_cons, signed_cons, later.isPrefixOf_eq (by simp)]
  | comment after other opens =>
    have brace : '{' ≠ ' ' := by decide
    rw [signed_cons, signed_cons, if_neg (differs (.inr (.inr rfl)))]
    rcases opens with rfl | rfl
    · rw [if_neg (differs (.inl rfl))]
      rfl
    · rw [if_neg (differs (.inr (.inl rfl)))]
      rfl

/-- On the way from one cursor to another, tokens were read that neither are comments nor hold
other tokens. -/
def OnlyPlain (c d : Cursor) : Prop :=
  ∃ tokens, d.tokens = tokens ++ c.tokens ∧ ∀ token ∈ tokens, token.isPlain = true

namespace OnlyPlain

variable {c d e : Cursor}

theorem trans (first : OnlyPlain c d) (second : OnlyPlain d e) : OnlyPlain c e := by
  obtain ⟨tokens, kept, plain⟩ := first
  obtain ⟨more, kept', plain'⟩ := second
  refine ⟨more ++ tokens, by rw [kept', kept, List.append_assoc], fun token member => ?_⟩
  exact (List.mem_append.mp member).elim (plain' token) (plain token)

theorem text_eq (only : OnlyPlain c d) {other : List Char} (passed : Passed c d other) :
    c.rest = other ++ d.rest ∧ d.position = c.position + other.length := by
  obtain ⟨tokens, kept, plain⟩ := only
  obtain ⟨text, tokens', split, position, kept', spacing⟩ := passed
  have same := List.append_cancel_right (kept.symm.trans kept')
  rw [spacing.eq_of_plain fun token member => plain token (by simpa [same] using member)]
  exact ⟨split, position⟩

end OnlyPlain

/-- Read something and keep where it stands. -/
def Reader.spanned {α : Type} (reader : Reader α) : Reader (α × Slice) := do
  let start ← get
  let a ← reader
  let slice ← sliceFrom start
  return (a, slice)

theorem Reader.spanned_run {α : Type} {reader : Reader α} {c d : Cursor} {a : α} {slice : Slice}
    (run : spanned reader c = some ((a, slice), d)) :
    reader c = some (a, d) ∧ slice = ⟨c.position, c.rest.take (d.position - c.position)⟩ := by
  change (reader c).bind _ = _ at run
  obtain ⟨⟨b, e⟩, taken, run⟩ := Option.bind_eq_some_iff.mp run
  cases run
  exact ⟨taken, rfl⟩

namespace Mirrors

theorem spanned {α ι : Type} {before after : Beside} {least : α → Nat} {most : Nat}
    {reader : Reader α} {others : ι → Reader α} {alike : α → α → Prop} {c : Cursor}
    (mirrors : Mirrors before after least most reader others alike c) (none : α → Prop)
    (only : ∀ a d, reader c = some (a, d) → none a → OnlyPlain c d) :
    Mirrors before after (fun x => least x.1) most reader.spanned (fun i => (others i).spanned)
      (fun x y => alike x.1 y.1 ∧ (none x.1 → x.2.text = y.2.text)) c := by
  rintro ⟨a, slice⟩ d run left beside
  obtain ⟨taken, rfl⟩ := Reader.spanned_run run
  obtain ⟨other, passed, long, here, image⟩ := mirrors a d taken left beside
  refine ⟨other, passed, long, here, fun short i p tokens => ?_⟩
  obtain ⟨b, tokens', run', like⟩ := image short i p tokens
  refine ⟨(b, ⟨p, other⟩), tokens', ?_, like, fun nothing => ?_⟩
  · show (others i _).bind _ = _
    rw [run']
    show some ((b, (⟨p, (other ++ left).take (p + other.length - p)⟩ : Slice)), _) = _
    rw [Nat.add_sub_cancel_left, List.take_left]
  · obtain ⟨split, position⟩ := (only a d taken nothing).text_eq passed
    rw [split, position, Nat.add_sub_cancel_left]
    exact List.take_left

end Mirrors

theorem Level.next {c : Char} {text other rest : List Char} (level : Level text other)
    (split : text = c :: rest) : ∃ left, other = c :: left ∧ Alongside rest left := by
  subst split
  cases level with
  | cons _ later => exact ⟨_, rfl, later⟩

namespace Mirrors

variable {ι : Type} {room most : Nat} {c : Cursor} {expression other : Reader Expr}

theorem closingAhead :
    Mirrors LevelAhead LevelAhead (fun _ => 0) most Reader.closingAhead
      (fun _ : ι => Reader.closingAhead) Eq c := by
  refine ahead.bindSame fun text _ _ => ⟨fun _ other level => ?_, ?_⟩
  · cases level with
    | nil => rfl
    | cons d => split <;> (split <;> simp_all)
  · split <;> exact pure (fun _ => rfl) rfl

theorem closing :
    Mirrors LevelAhead Level (fun _ => 1) most Reader.closing (fun _ : ι => Reader.closing)
      (fun _ _ => True) c := by
  refine (optional (by simp) (by simp)).bindEq fun found _ _ => ?_
  refine (symbol Level.sound (by simp) (by simp)).mono (Nat.le_refl _) ?_ fun _ _ => id
  intro a
  exact Nat.sub_le _ _

theorem interpolation (inner : MirrorsWithin room expression other) (le : most ≤ room) :
    Mirrors LevelAhead Level (fun _ => 1) most (Reader.interpolation expression)
      (fun _ : ι => Reader.interpolation other) (fun a b => a.stripped = b.stripped) c := by
  refine (optional (by simp) (by simp)).bindEq fun found _ _ => ?_
  refine closingAhead.bindEq fun ends _ _ => ite (fun _ => ?_) fun _ => ?_
  · exact closing.andThen fun _ _ _ => pure (fun _ => rfl) (by simp)
  · refine (inner _ _ ?_).bind fun inside _ _ => closing.andThen fun _ _ _ => pure (fun i => ?_) ?_
    · omega
    · have like : inside.stripped = i.2.1.stripped := i.2.2
      simp [Part.stripped, like]
    · simp

theorem names :
    Mirrors LevelAhead LevelAhead (fun _ => 1) most Reader.names (fun _ : ι => Reader.names)
      (fun _ _ => True) c := by
  refine (name LevelAhead.sound).andThen fun _ _ _ => ?_
  refine (optional (by simp) (by simp)).bindEq fun found _ _ => ?_
  cases found with
  | true =>
    exact (name LevelAhead.sound).andThen fun _ _ _ =>
      (word LevelAhead.sound _).mono (Nat.le_refl _) (by simp) fun _ _ => id
  | false => exact (word LevelAhead.sound _).mono (Nat.le_refl _) (by simp) fun _ _ => id

theorem directiveEnd {part : Part} {part' : ι → Part}
    (like : ∀ i, part.stripped = (part' i).stripped) :
    Mirrors LevelAhead Level (fun _ => 0) most
      (Pure.pure part >>= fun part => Reader.closing >>= fun _ => Pure.pure part)
      (fun i => Pure.pure (part' i) >>= fun part => Reader.closing >>= fun _ => Pure.pure part)
      (fun a b => a.stripped = b.stripped) c := by
  refine Mirrors.bind (pure (fun i => like i) rfl : Mirrors LevelAhead LevelAhead (fun _ => 0) _ _ _
    (fun a b => Part.stripped a = Part.stripped b) _) fun _ _ same => ?_
  cases same
  exact closing.andThen fun _ _ _ => pure (fun i => i.2.2) rfl

theorem directive (inner : MirrorsWithin room expression other) (le : most ≤ room) :
    Mirrors LevelAhead Level (fun _ => 1) most (Reader.directive expression)
      (fun _ : ι => Reader.directive other) (fun a b => a.stripped = b.stripped) c := by
  have collected {κ : Type} {fewer : Nat} {d : Cursor} (tag : Tag) (few : fewer ≤ room) :
      Mirrors LevelAhead Level (fun _ => 0) fewer
        (expression >>= fun inside => Pure.pure (Part.directive tag [inside]) >>= fun part =>
          Reader.closing >>= fun _ => Pure.pure part)
        (fun _ : κ => other >>= fun inside => Pure.pure (Part.directive tag [inside]) >>= fun part =>
          Reader.closing >>= fun _ => Pure.pure part)
        (fun a b => a.stripped = b.stripped) d := by
    refine (inner fewer d few).bind fun inside _ _ =>
      (directiveEnd fun i => ?_).mono (Nat.le_refl _) (by simp) fun _ _ => id
    have like : inside.stripped = i.2.1.stripped := i.2.2
    simp [Part.stripped, like]
  refine (optional (by simp) (by simp)).bindEq fun found _ _ => ?_
  refine (name LevelAhead.sound).bindSame fun tag _ _ =>
    ⟨fun _ b same => by rw [Slice.string, Slice.string, same], ?_⟩
  simp only [show 1 - found.toNat - 1 = 0 by omega]
  split
  · exact names.andThen fun _ _ _ => collected .for_ (by omega)
  · exact collected .if_ (by omega)
  · exact directiveEnd fun _ => rfl
  · exact directiveEnd fun _ => rfl
  · exact directiveEnd fun _ => rfl
  · exact failure

/-- What begins with a template sign. -/
theorem signed (inner : MirrorsWithin room expression other) (le : most ≤ room) {sign : Char}
    (template : isTemplateSign sign = true) {after : List Char} (split : c.rest = sign :: after) :
    Mirrors Level Level (fun _ => 1) most (Reader.signed expression sign after)
      (fun _ : ι => Reader.signed other sign after) PartsAlike c := by
  have plain (text : List Char) {rest : List Char} (shape : c.rest = text ++ rest)
      (filled : text ≠ []) :
      Mirrors Level Level (fun _ => 1) most
        (do
          let _ ← Reader.token .text text.length
          return [])
        (fun _ : ι => do
          let _ ← Reader.token .text text.length
          return []) PartsAlike c := by
    refine (tokenLevel Level.sound (fun _ => rfl) text shape filled).andThen fun _ _ _ =>
      pure (fun _ => rfl) ?_
    have long := List.length_pos_iff.mpr filled
    omega
  cases after with
  | nil => exact plain [sign] split (by simp)
  | cons d after =>
    rw [signed_cons, signed_cons]
    refine ite (fun brace => ?_) fun brace => ?_
    · subst brace
      refine (tokenLevel LevelAhead.sound (fun _ => rfl) [sign, '{'] split (by simp)).andThen
        fun _ _ _ => ite (fun _ => ?_) fun _ => ?_
      · refine (interpolation inner (by omega)).bind fun part _ _ => pure (fun i => ?_) (by simp)
        exact congrArg (fun part => [part]) i.2.2
      · refine (directive inner (by omega)).bind fun part _ _ => pure (fun i => ?_) (by simp)
        exact congrArg (fun part => [part]) i.2.2
    · by_cases same : d = sign
      · subst same
        rw [if_pos rfl]
        cases starts : ['{'].isPrefixOf after with
        | true =>
          obtain ⟨rest, rfl⟩ := List.isPrefixOf_iff_prefix.mp starts
          exact plain [d, d, '{'] split (by simp)
        | false => exact plain [d, d] split (by simp)
      · rw [if_neg same]
        exact plain [sign] split (by simp)

/-- A stretch of characters of a kind, number signs and slashes among them. -/
theorem stretch {α : Type} {least : α → Nat} {reader : Reader α} {others : ι → Reader α}
    {alike : α → α → Prop} {kind : Char → Bool} {first : Char} {rest : List Char}
    (make : Slice → Token) (plain : ∀ slice, (make slice).isPlain = true) (a : α) (like : alike a a)
    (one : least a ≤ 1) (split : c.rest = first :: rest) (here : kind first = true)
    (run : ∀ p tail tokens, reader ⟨p, first :: tail, tokens⟩ =
      (Reader.token make ((first :: tail).takeWhile kind).length >>= fun _ => Pure.pure a)
        ⟨p, first :: tail, tokens⟩)
    (image : ∀ i p tail tokens, others i ⟨p, first :: tail, tokens⟩ =
      (Reader.token make ((first :: tail).takeWhile kind).length >>= fun _ => Pure.pure a)
        ⟨p, first :: tail, tokens⟩) :
    Mirrors Level Level least most reader others alike c := by
  obtain ⟨tail, after, rfl, all, ends⟩ := exists_longest kind rest
  have taken {left : List Char} (level : Level after left) :
      (first :: (tail ++ left)).takeWhile kind = first :: tail := by
    rw [List.takeWhile_cons, if_pos here, List.takeWhile_append_of_pos all]
    cases level with
    | nil => rw [List.takeWhile_nil, List.append_nil]
    | cons d => rw [List.takeWhile_cons_of_neg (by simp [ends d rfl]), List.append_nil]
  have read {left : List Char} (level : Level after left) (p : Nat) (tokens : List Token) :
      (Reader.token make ((first :: (tail ++ left)).takeWhile kind).length >>=
        fun _ => (Pure.pure a : Reader α)) ⟨p, first :: (tail ++ left), tokens⟩ =
      some (a, ⟨p + (first :: tail).length, left, make ⟨p, first :: tail⟩ :: tokens⟩) := by
    rw [taken level]
    show some (a, (⟨p + (first :: tail).length, (first :: tail ++ left).drop (first :: tail).length,
      make ⟨p, (first :: tail ++ left).take (first :: tail).length⟩ :: tokens⟩ : Cursor)) = _
    rw [List.drop_left, List.take_left]
  have level : Level after after := by
    cases after with
    | nil => exact .nil
    | cons d after => exact .cons d (.refl after)
  refine piece a (first :: tail) [make ⟨c.position, first :: tail⟩] split ?_ (by simpa using plain _)
    (Nat.le_trans one (Nat.le_add_left 1 _)) (fun left level => ?_) fun left level i p tokens =>
      ⟨a, _, (image i p (tail ++ left) tokens).trans (read level p tokens), like⟩
  · obtain ⟨p, _, tokens⟩ := c
    cases split
    exact (run p (tail ++ after) tokens).trans (read level p tokens)
  · rw [split]
    exact .cons first (level.alongside.append tail)

/-- An escape. -/
theorem escape {α : Type} {least : α → Nat} {alike : α → α → Prop} {after : List Char}
    (make : Slice → Token) (plain : ∀ slice, (make slice).isPlain = true)
    (split : c.rest = '\\' :: after) (a : α) (like : alike a a) (one : least a ≤ 1) :
    Mirrors Level Level least most
      (match escapeLength? after with
        | some length => do
            let _ ← Reader.token make (length + 1)
            return a
        | none => Alternative.failure : Reader α)
      (fun _ : ι => match escapeLength? after with
        | some length => do
            let _ ← Reader.token make (length + 1)
            return a
        | none => Alternative.failure) alike c := by
  cases found : escapeLength? after with
  | none => exact failure
  | some length =>
    obtain ⟨letter, digits, rest, rfl, rfl, -⟩ := escapeLength?_cases found
    refine (tokenLevel Level.sound plain ('\\' :: letter :: digits) split (by simp)).andThen
      fun _ _ _ => pure (fun _ => like) ?_
    exact Nat.sub_eq_zero_of_le (Nat.le_trans one (Nat.le_add_left 1 _))

/-- The next stretch of a quoted string. -/
theorem quotedPart (inner : MirrorsWithin room expression other) (le : most ≤ room) :
    Mirrors Level Level (fun found => found.elim 0 fun _ => 1) most (Reader.quotedPart expression)
      (fun _ : ι => Reader.quotedPart other) (Option.Rel PartsAlike) c := by
  cases split : c.rest with
  | nil =>
    intro a d run
    obtain ⟨p, _, tokens⟩ := c
    cases split
    cases run
  | cons sign after =>
    by_cases plain : Reader.isPlain sign = true
    · have run (expression : Reader Expr) (p : Nat) (tail : List Char) (tokens : List Token) :
          Reader.quotedPart expression ⟨p, sign :: tail, tokens⟩ =
            (Reader.token .text ((sign :: tail).takeWhile Reader.isPlain).length >>=
              fun _ => Pure.pure (some [])) ⟨p, sign :: tail, tokens⟩ := by
        rw [Reader.quotedPart, Reader.get_run]
        refine congrFun ?_ _
        split <;> simp_all [Reader.isPlain]
      exact stretch .text (fun _ => rfl) _ (.some rfl) (Nat.le_refl 1) split plain (run expression)
        fun _ => run other
    · have signs : sign = '"' ∨ sign = '$' ∨ sign = '%' ∨ sign = '\\' := by
        simp only [Reader.isPlain, Bool.and_eq_true, bne_iff_ne] at plain
        tauto
      refine get.bindSame ?_
      rintro _ _ ⟨⟩
      have signed (template : isTemplateSign sign = true) :
          Mirrors Level Level (fun found : Option (List Part) => found.elim 0 fun _ => 1) most
            (Reader.signed expression sign after >>= fun parts => Pure.pure (some parts))
            (fun _ : ι => Reader.signed other sign after >>= fun parts => Pure.pure (some parts))
            (Option.Rel PartsAlike) c :=
        (signed inner le template split).bind fun parts _ _ =>
          pure (fun i => .some i.2.2) (Nat.sub_self 1)
      refine ⟨fun i b level => ?_, ?_⟩
      · obtain ⟨after', split', later⟩ := level.next split
        have same (template : isTemplateSign sign = true) :=
          congrArg (· >>= fun parts => (Pure.pure (some parts) : Reader (Option (List Part))))
            (signed_eq other template later).symm
        rw [split, split']
        rcases signs with rfl | rfl | rfl | rfl
        · rfl
        · exact same rfl
        · exact same rfl
        · simp only [later.escapeLength?_eq]
      · rw [split]
        rcases signs with rfl | rfl | rfl | rfl
        · exact pure (fun _ => .none) rfl
        · exact signed rfl
        · exact signed rfl
        · exact escape .text (fun _ => rfl) split _ (.some rfl) (Nat.le_refl 1)

end Mirrors

/-- What a quoted string is read as, with its closing quote. -/
def Reader.quotedParts (bound : Nat) (expression : Reader Expr) : Reader (List Part) := do
  take 1
  let stretches ← Reading.repeated bound (quotedPart expression)
  take 1
  return stretches.flatten

/-- What a quoted string with such parts is. -/
def Reader.quotedOf (parts : List Part) (slice : Slice) : Reader Expr := do
  if parts.isEmpty then
    keep (.quoted slice)
    return .quoted slice
  else if balanced parts then return .quotedTemplate slice (parts.flatMap Part.inside)
  else failure

theorem Reader.quoted_eq (bound : Nat) (expression : Reader Expr) :
    quoted bound expression =
      (quotedParts bound expression).spanned >>= fun x => quotedOf x.1 x.2 := by
  simp [quoted, quotedParts, quotedOf, spanned]

/-- Unless it finds something else, a step goes past nothing but plain tokens. -/
def FindsPlain {α : Type} (none : α → Prop) (step : Reader (Option α)) (c : Cursor) : Prop :=
  ∀ found d, step c = some (found, d) → (∀ a ∈ found, none a) → OnlyPlain c d

namespace FindsPlain

variable {α : Type} {none : α → Prop} {c : Cursor}

theorem get {next : Cursor → Reader (Option α)} (finds : FindsPlain none (next c) c) :
    FindsPlain none (MonadState.get >>= next) c :=
  finds

theorem done : FindsPlain none (pure .none) c := by
  rintro found d ⟨⟩ _
  exact ⟨[], rfl, by simp⟩

theorem failure : FindsPlain none failure c := by
  rintro found d ⟨⟩

theorem given {a : α} : FindsPlain none (pure (some a)) c := by
  rintro found d ⟨⟩ _
  exact ⟨[], rfl, by simp⟩

theorem taken {count : Nat} {next : Reader (Option α)} (finds : ∀ d, FindsPlain none next d) :
    FindsPlain none (Reader.take count >>= fun _ => next) c := by
  intro found d run empty
  obtain ⟨⟨⟩, e, taken, run⟩ := Reader.bind_run run
  have passed : OnlyPlain c e := by
    cases taken
    exact ⟨[], rfl, by simp⟩
  exact passed.trans (finds e found d run empty)

theorem token {make : Slice → Token} (plain : ∀ slice, (make slice).isPlain = true) {count : Nat}
    {a : α} : FindsPlain none (Reader.token make count >>= fun _ => pure (some a)) c := by
  rintro found d ⟨⟩ _
  exact ⟨[make _], rfl, by simpa using plain _⟩

/-- No part begins where a sign is text. -/
theorem signed (expression : Reader Expr) (sign : Char) (after : List Char) :
    FindsPlain (· = []) (Reader.signed expression sign after >>= fun parts => pure (some parts))
      c := by
  intro found d run empty
  obtain ⟨parts, e, begun, ended⟩ := Reader.bind_run run
  cases ended
  obtain rfl : parts = [] := empty parts rfl
  have given {reader : Reader Part} {e : Cursor}
      (run : (reader >>= fun part => pure [part]) e = some ([], d)) : OnlyPlain c d := by
    obtain ⟨part, there, -, ended⟩ := Reader.bind_run run
    cases ended
  cases after with
  | nil =>
    cases begun
    exact ⟨[.text _], rfl, by simp [Token.isPlain]⟩
  | cons next after =>
    rw [signed_cons] at begun
    split at begun
    · obtain ⟨slice, there, -, begun⟩ := Reader.bind_run begun
      split at begun
      · exact given begun
      · exact given begun
    · cases begun
      exact ⟨[.text _], rfl, by simp [Token.isPlain]⟩

theorem repeated {step : Reader (Option α)} (each : ∀ c, FindsPlain none step c) {bound : Nat}
    {d : Cursor} {list : List α} (run : Reading.repeated bound step c = some (list, d))
    (all : ∀ a ∈ list, none a) : OnlyPlain c d :=
  Reader.repeated_run each OnlyPlain.trans run all

end FindsPlain

theorem quotedPart_findsPlain (expression : Reader Expr) (c : Cursor) :
    FindsPlain (· = []) (Reader.quotedPart expression) c := by
  refine .get ?_
  split
  · exact .done
  · exact .signed _ _ _
  · exact .signed _ _ _
  · split
    · exact .token fun _ => rfl
    · exact .failure
  · exact .token fun _ => rfl
  · exact .failure

theorem labelPart_findsPlain (c : Cursor) : FindsPlain (fun _ => True) Reader.labelPart c := by
  refine .get ?_
  split
  · exact .done
  · split
    · exact .token fun _ => rfl
    · exact .failure
  · exact .token fun _ => rfl
  · exact .failure

theorem quotedPart_stopsAt (expression : Reader Expr) (c : Cursor) :
    StopsAt (Reader.quotedPart expression) c fun d => ∃ rest, d.rest = '"' :: rest := by
  refine StopsAt.get ?_
  split
  · rintro d ⟨⟩
    exact ⟨_, ‹_›⟩
  · exact .after fun _ _ => .given
  · exact .after fun _ _ => .given
  · split
    · exact .after fun _ _ => .given
    · rintro d ⟨⟩
  · exact .after fun _ _ => .given
  · rintro d ⟨⟩

theorem labelPart_stopsAt (c : Cursor) :
    StopsAt Reader.labelPart c fun d => ∃ rest, d.rest = '"' :: rest := by
  refine StopsAt.get ?_
  split
  · rintro d ⟨⟩
    exact ⟨_, ‹_›⟩
  · split
    · exact .after fun _ _ => .given
    · rintro d ⟨⟩
  · exact .after fun _ _ => .given
  · rintro d ⟨⟩

/-- What a quoted label is read as, with its closing quote. -/
def Reader.quotedText (bound : Nat) : Reader Unit := do
  take 1
  let _ ← Reading.repeated bound labelPart
  take 1

theorem Reader.quotedLabel_eq (bound : Nat) :
    quotedLabel bound = (quotedText bound).spanned >>= fun x => do
      keep (.label x.2)
      return x.2 := by
  simp [quotedLabel, quotedText, spanned]

namespace Mirrors

variable {ι : Type} {room most : Nat} {c : Cursor} {expression other : Reader Expr}

theorem quotedParts (inner : MirrorsWithin room expression other) (le : most ≤ room + 1) (bound : Nat)
    {bound' : Nat} (enough : most ≤ bound' + 1) {rest : List Char} (split : c.rest = '"' :: rest) :
    Mirrors Level LevelAhead (fun _ => 1) most (Reader.quotedParts bound expression)
      (fun _ : ι => Reader.quotedParts bound' other) PartsAlike c := by
  have one : ['"'].length = 1 := rfl
  refine (takeLevel Level.sound ['"'] split (by simp)).andThen fun _ _ _ => ?_
  refine (repeated (fun fewer c few => quotedPart inner (by omega)) bound (by omega)).bind
    fun stretches d run => ?_
  obtain ⟨last, ended⟩ := repeated_last run
  obtain ⟨rest, quote⟩ := quotedPart_stopsAt expression last d ended
  exact (takeLevel LevelAhead.sound ['"'] quote (by simp)).andThen fun _ _ _ =>
    pure (fun i => .flatten i.2.2) rfl

theorem quotedOf {parts : List Part} {slice : Slice} {parts' : ι → List Part} {slice' : ι → Slice}
    (alike : ∀ i, PartsAlike parts (parts' i))
    (same : ∀ i, parts = [] → slice.text = (slice' i).text) :
    Mirrors LevelAhead LevelAhead (fun _ => 0) most (Reader.quotedOf parts slice)
      (fun i => Reader.quotedOf (parts' i) (slice' i)) Expr.Alike c := by
  refine congr (fun i =>
      if parts.isEmpty then
        Reader.keep (.quoted (slice' i)) >>= fun _ => Pure.pure (.quoted (slice' i))
      else if balanced parts then
        Pure.pure (.quotedTemplate (slice' i) ((parts' i).flatMap Part.inside))
      else Alternative.failure) ?_ fun i => ?_
  case refine_2 =>
    rw [(alike i).isEmpty, (alike i).balanced]
    rfl
  refine ite (fun empty => ?_) fun _ => ite (fun _ => pure (fun i => ?_) rfl) fun _ => failure
  · refine (@keep ι LevelAhead _ c (.quoted slice) rfl _).andThen fun _ _ _ => pure (fun i => ?_) rfl
    have unplaced : slice.unplaced = (slice' i).unplaced := by
      rw [Slice.unplaced, same i (List.isEmpty_iff.mp empty)]
      rfl
    simp [Expr.Alike, Expr.stripped, unplaced]
  · simp [Expr.Alike, Expr.stripped, Expr.strippedItems_eq, (alike i).inside]

theorem quoted (inner : MirrorsWithin room expression other) (le : most ≤ room + 1) (bound : Nat)
    {bound' : Nat} (enough : most ≤ bound' + 1) {rest : List Char} (split : c.rest = '"' :: rest) :
    Mirrors Level LevelAhead (fun _ => 1) most (Reader.quoted bound expression)
      (fun _ : ι => Reader.quoted bound' other) Expr.Alike c := by
  rw [Reader.quoted_eq, Reader.quoted_eq]
  refine ((quotedParts inner le bound enough split).spanned (· = []) fun parts d run none => ?_).bind
    fun x _ _ => ?_
  · subst none
    obtain ⟨⟨⟩, here, opened, run⟩ := Reader.bind_run run
    obtain ⟨stretches, there, repeats, run⟩ := Reader.bind_run run
    obtain ⟨⟨⟩, last, closed, run⟩ := Reader.bind_run run
    obtain ⟨none, rfl⟩ := Prod.mk.inj (Option.some.inj run)
    have only := FindsPlain.repeated (quotedPart_findsPlain expression) repeats
      (List.flatten_eq_nil_iff.mp none)
    cases opened
    cases closed
    exact only
  · exact quotedOf (fun i => i.2.2.1) fun i => i.2.2.2

/-- The next stretch of a quoted label. -/
theorem labelPart :
    Mirrors Level Level (fun found => found.elim 0 fun _ => 1) most Reader.labelPart
      (fun _ : ι => Reader.labelPart) (Option.Rel fun _ _ => True) c := by
  cases split : c.rest with
  | nil =>
    intro a d run
    obtain ⟨p, _, tokens⟩ := c
    cases split
    cases run
  | cons sign after =>
    by_cases plain : (sign != '"' && sign != '\\') = true
    · have run (p : Nat) (tail : List Char) (tokens : List Token) :
          Reader.labelPart ⟨p, sign :: tail, tokens⟩ =
            (Reader.token .labelText ((sign :: tail).takeWhile fun c => c != '"' && c != '\\').length
              >>= fun _ => Pure.pure (some ())) ⟨p, sign :: tail, tokens⟩ := by
        rw [Reader.labelPart, Reader.get_run]
        refine congrFun ?_ _
        split <;> simp_all
      exact stretch .labelText (fun _ => rfl) _ (.some trivial) (Nat.le_refl 1) split plain run
        fun _ => run
    · have signs : sign = '"' ∨ sign = '\\' := by
        simp only [Bool.and_eq_true, bne_iff_ne] at plain
        tauto
      refine get.bindSame ?_
      rintro _ _ ⟨⟩
      refine ⟨fun i b level => ?_, ?_⟩
      · obtain ⟨after', split', later⟩ := level.next split
        rw [split, split']
        rcases signs with rfl | rfl
        · rfl
        · simp only [later.escapeLength?_eq]
      · rw [split]
        rcases signs with rfl | rfl
        · exact pure (fun _ => .none) rfl
        · exact escape .labelText (fun _ => rfl) split _ (.some trivial) (Nat.le_refl 1)

/-- A quoted label. -/
theorem quotedLabel (bound : Nat) {bound' : Nat} (enough : most ≤ bound' + 1) {rest : List Char}
    (split : c.rest = '"' :: rest) :
    Mirrors Level LevelAhead (fun _ => 1) most (Reader.quotedLabel bound)
      (fun _ : ι => Reader.quotedLabel bound') (fun a b => a.text = b.text) c := by
  have whole : Mirrors Level LevelAhead (fun _ => 1) most (Reader.quotedText bound)
      (fun _ : ι => Reader.quotedText bound') (fun _ _ => True) c := by
    have one : ['"'].length = 1 := rfl
    refine (takeLevel Level.sound ['"'] split (by simp)).andThen fun _ _ _ => ?_
    refine (repeated (fun _ _ _ => labelPart) bound (by omega)).andThen fun _ d run => ?_
    obtain ⟨last, ended⟩ := repeated_last run
    obtain ⟨rest, quote⟩ := labelPart_stopsAt last d ended
    exact (takeLevel LevelAhead.sound ['"'] quote (by simp)).mono (Nat.le_refl _) (by simp)
      fun _ _ => id
  rw [Reader.quotedLabel_eq, Reader.quotedLabel_eq]
  refine (whole.spanned (fun _ => True) fun _ d run _ => ?_).bind fun x _ _ =>
    (@keep _ LevelAhead _ _ (.label x.2) rfl _).andThen fun _ _ _ => pure (fun i => i.2.2.2 trivial) rfl
  obtain ⟨⟨⟩, here, opened, rest⟩ := Reader.bind_run run
  obtain ⟨stretches, there, repeats, closed⟩ := Reader.bind_run rest
  have only := FindsPlain.repeated labelPart_findsPlain repeats (fun _ _ => trivial)
  cases opened
  cases closed
  exact only

end Mirrors

end TerraDoc.Hcl
