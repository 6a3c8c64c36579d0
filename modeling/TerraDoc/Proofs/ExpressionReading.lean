import TerraDoc.Proofs.CommaList
import TerraDoc.Proofs.NameScan
import TerraDoc.Proofs.ReaderRun

namespace TerraDoc.Hcl

open Reader Exponent

/-- What may follow an expression in what is written, blanks apart: a sign that closes it, or a
single equals sign. -/
inductive Closes : List Char → Prop where
  | sign {c : Char} (rest : List Char) (closing : c ∈ [',', ']', '}', ')']) : Closes (c :: rest)
  | equals {rest : List Char} (single : rest.head? ≠ some '=') : Closes ('=' :: rest)
  | gap {c : Char} {after : List Char} (blank : c ∈ [' ', '\n']) (closes : Closes after) :
      Closes (c :: after)

namespace Closes

variable {total : Nat} {after : List Char}

theorem ends (closes : Closes after) : Ends after := by
  cases closes with
  | sign rest closing =>
    refine ⟨_, rest, rfl, ?_⟩
    simp only [List.mem_cons, List.not_mem_nil, or_false] at closing ⊢
    tauto
  | equals => exact ⟨'=', _, rfl, by simp⟩
  | gap blank =>
    refine ⟨_, _, rfl, ?_⟩
    simp only [List.mem_cons, List.not_mem_nil, or_false] at blank ⊢
    tauto

theorem before (closes : Closes after) :
    ∃ c rest, Gap.Before after (c :: rest) ∧
      (c ∈ [',', ']', '}', ')'] ∨ c = '=' ∧ rest.head? ≠ some '=') := by
  induction closes with
  | @sign c rest closing =>
    have starts : ∀ c ∈ [',', ']', '}', ')'], startsToken c = true :=
      List.all_iff_forall_prop.mp (by decide)
    exact ⟨c, rest, .here (starts c closing), .inl closing⟩
  | equals single => exact ⟨'=', _, .here rfl, .inr ⟨rfl, single⟩⟩
  | gap blank _ ih =>
    have blanks : ∀ c ∈ [' ', '\n'], isBlank c = true := List.all_iff_forall_prop.mp (by decide)
    obtain ⟨d, rest, before, closing⟩ := ih
    exact ⟨d, rest, .cons (blanks _ blank) before, closing⟩

theorem gaps {gap : List Char} (blank : ∀ c ∈ gap, c = ' ') (closes : Closes after) :
    Closes (gap ++ after) := by
  induction gap with
  | nil => exact closes
  | cons c gap ih =>
    exact .gap (by simp [blank c]) (ih fun d member => blank d (List.mem_cons_of_mem c member))

/-- Nothing is linked to the operand before. -/
theorem link (closes : Closes after) (bound : Nat) (expression : Reader Expr) :
    Reads total (link bound expression) after after (· = none) := by
  obtain ⟨c, rest, before, closing⟩ := closes.before
  refine .bind (.ahead before) fun next same => ?_
  rw [same]
  simp only [List.mem_cons, List.not_mem_nil, or_false] at closing
  rcases closing with (rfl | rfl | rfl | rfl) | ⟨rfl, single⟩
  · exact .pure rfl
  · exact .pure rfl
  · exact .pure rfl
  · exact .pure rfl
  · have none : operatorLength? ('=' :: rest) = none := by
      cases rest with
      | nil => rfl
      | cons d rest => simp_all [operatorLength?]
    split
    case h_6 => simpa only [none] using .pure rfl
    all_goals
      rename_i equal
      cases equal

theorem question (closes : Closes after) :
    Reads total (optional? ['?']) after after (· = false) := by
  obtain ⟨c, rest, before, closing⟩ := closes.before
  refine .optional_false before ?_
  simp only [List.mem_cons, List.not_mem_nil, or_false] at closing
  rcases closing with (rfl | rfl | rfl | rfl) | ⟨rfl, -⟩ <;> rfl

theorem not_call (closes : Closes after) :
    ∃ c rest, Gap.Before after (c :: rest) ∧ c ≠ '(' := by
  obtain ⟨c, rest, before, closing⟩ := closes.before
  refine ⟨c, rest, before, ?_⟩
  rintro rfl
  simp at closing

end Closes

/-- Whether a character can begin an expression in what is written. -/
def startsExpression (c : Char) : Bool :=
  startsToken c && !([']', '}', ')', '='].contains c)

/-- How what is written for an expression begins, which is not with the word of a repetition. -/
structure Starts (written : List Char) : Prop where
  head : ∃ c rest, written = c :: rest ∧ startsExpression c = true
  single : ∀ after, Ends after → (name? (written ++ after) == some "for".toList) = false

/-- What is written for an expression: it is read, up to what closes it, as something good. -/
structure Writes (written : List Char) (good : Expr → Prop) : Prop extends Starts written where
  reads : ∀ (total bound : Nat) (text after : List Char), written.length < bound →
    Gap.Before text (written ++ after) → Closes after → Reads total (expression bound) text after good

/-- What is written for an expression that ends with its line: it is read, up to the line end, as
something good. -/
structure WritesLine (written : List Char) (good : Expr → Prop) : Prop extends Starts written where
  reads : ∀ (total bound : Nat) (text after : List Char), written.length < bound →
    Gap.Before text (written ++ '\n' :: after) → Closes after →
      Reads total (expression bound) text ('\n' :: after) good

variable {total : Nat} {written : List Char} {good : Expr → Prop}

theorem startsExpression_other {c : Char} (starts : startsExpression c = true) :
    startsToken c = true ∧ c ∉ [']', '}', ')', '='] := by
  rw [startsExpression, Bool.and_eq_true, Bool.not_eq_true'] at starts
  exact ⟨starts.1, by simpa using starts.2⟩

namespace Starts

theorem of_head {c : Char} (rest : List Char) (starts : startsExpression c = true)
    (nameless : startsWord c = false) : Starts (c :: rest) := by
  refine ⟨⟨c, rest, rfl, starts⟩, fun after _ => ?_⟩
  rw [List.cons_append, name?_none nameless]
  rfl

theorem before (starts : Starts written) (after : List Char) :
    Gap.Before (written ++ after) (written ++ after) := by
  obtain ⟨c, rest, rfl, head⟩ := starts.head
  exact .here (startsExpression_other head).1

theorem not_sign (starts : Starts written) (after : List Char) {sign : Char}
    (closing : sign ∈ [']', '}', ')', '=']) (rest : List Char) : written ++ after ≠ sign :: rest := by
  obtain ⟨c, tail, rfl, head⟩ := starts.head
  intro same
  rw [(List.cons.inj same).1] at head
  exact (startsExpression_other head).2 closing

theorem not_prefix (starts : Starts written) (after : List Char) {sign : Char}
    (closing : sign ∈ [']', '}', ')', '=']) :
    List.isPrefixOf [sign] (written ++ after) = false := by
  by_contra found
  obtain ⟨rest, split⟩ := List.isPrefixOf_iff_prefix.mp (eq_true_of_ne_false found)
  exact starts.not_sign after closing rest split.symm

end Starts

/-- A text that is read as an operand is read as an expression. -/
theorem expression_of_operand {bound : Nat} {text after : List Char} (starts : Starts written)
    (enough : written.length < bound) (before : Gap.Before text (written ++ after))
    (closes : Closes after)
    (read : ∀ bound, written.length ≤ bound + 1 →
      Reads total (operand (expression (bound + 1)) (bound + 1)) (written ++ after) after good) :
    Reads total (expression bound) text after good := by
  obtain ⟨smaller, rfl⟩ : ∃ smaller, bound = smaller + 2 := by
    obtain ⟨c, rest, rfl, -⟩ := starts.head
    rw [List.length_cons] at enough
    exact ⟨bound - 2, by omega⟩
  have one : Reads total (term (smaller + 1) (expression (smaller + 1))) (written ++ after) after
      good := by
    have run := read smaller (by omega)
    refine .bind (.mark (starts.before after)) fun _ _ => .bind run fun e holds => ?_
    refine .bind (.repeated_done smaller (closes.link _ _)) fun links none => ?_
    rw [none]
    exact .pure holds
  refine .bind (.mark before) fun _ _ => .bind one fun e holds => ?_
  refine .bind closes.question fun asked no => ?_
  rw [no]
  exact .pure holds

namespace Writes

theorem mono {better : Expr → Prop} (writes : Writes written good)
    (stronger : ∀ e, good e → better e) : Writes written better :=
  ⟨writes.toStarts, fun total bound text after enough before closes =>
    (writes.reads total bound text after enough before closes).mono stronger⟩

theorem line (writes : Writes written good) : WritesLine written good :=
  ⟨writes.toStarts, fun total bound text _ enough before closes =>
    writes.reads total bound text _ enough before (.gap (by simp) closes)⟩

theorem of_operand (starts : Starts written)
    (read : ∀ (total bound : Nat) (after : List Char), written.length ≤ bound + 1 →
      Closes after → Reads total (operand (expression (bound + 1)) (bound + 1))
        (written ++ after) after good) : Writes written good :=
  ⟨starts, fun total _ _ after enough before closes =>
    expression_of_operand starts enough before closes fun bound le => read total bound after le closes⟩

end Writes

theorem WritesLine.mono {better : Expr → Prop} (writes : WritesLine written good)
    (stronger : ∀ e, good e → better e) : WritesLine written better :=
  ⟨writes.toStarts, fun total bound text after enough before closes =>
    (writes.reads total bound text after enough before closes).mono stronger⟩

theorem operand_of_primary {bound : Nat} {c : Char} {rest after : List Char}
    {inner : Reader Expr} (solid : Solid (c :: rest)) (minus : c ≠ '-') (not : c ≠ '!')
    (read : Reads total (primary (bound + 1) inner) (c :: rest) after good) :
    Reads total (operand inner (bound + 1)) (c :: rest) after good := by
  refine .bind (.mark (.of_solid solid)) fun start ⟨same, _⟩ => ?_
  rw [same]
  split
  · rename_i equal
    exact absurd (List.cons.inj equal).1 minus
  · rename_i equal
    exact absurd (List.cons.inj equal).1 not
  · exact read

theorem listRest_done {close : Char} (bound : Nat) (after : List Char)
    (closing : close = ']' ∨ close = ')') {inner : Reader Expr} :
    Reads total (listRest (bound + 1) inner close) (close :: after) (close :: after) (· = []) := by
  have none : Reads total (optional? [',']) (close :: after) (close :: after) (· = false) := by
    rcases closing with rfl | rfl <;> exact .optional_false (.here rfl) rfl
  refine .repeated_done bound (.bind none ?_)
  rintro _ rfl
  exact .pure rfl

theorem startsToken_of_startsWord {c : Char} (starts : startsWord c = true) :
    startsToken c = true := by
  by_cases ascii : c.toNat < 128
  · exact ascii_cases (fun c => startsWord c = true → startsToken c = true) (by decide +kernel)
      ascii starts
  · have above (d : Char) (below : d.toNat < 128) : c ≠ d := by
      rintro rfl
      exact ascii below
    have blank : isBlank c = false := by
      have limit : ¬ c ≤ '\r' := by
        rw [Char.le_def, UInt32.le_iff_toNat_le]
        intro small
        exact ascii (Nat.lt_of_le_of_lt small (by decide))
      simp [isBlank, above ' ' (by decide), limit]
    simp [startsToken, blank, above '#' (by decide), above '/' (by decide)]

theorem startsExpression_of_startsWord {c : Char} (starts : startsWord c = true) :
    startsExpression c = true := by
  have signs : ∀ d ∈ [']', '}', ')', '='], startsWord d = false :=
    List.all_iff_forall_prop.mp (by decide)
  have other : c ∉ [']', '}', ')', '='] := fun sign => by
    rw [signs c sign] at starts
    cases starts
  simpa [startsExpression, startsToken_of_startsWord starts] using other

/-- What begins with a name is read as a name, a call or a literal word. -/
theorem operand_named {bound : Nat} {word after left : List Char} {inner : Reader Expr}
    (whole : name? word = some word)
    (read : Reads total (named (bound + 1) inner) (word ++ after) left good) :
    Reads total (operand inner (bound + 1)) (word ++ after) left good := by
  obtain ⟨c, tail, none, split, rfl, starts, -⟩ := name?_shape whole
  have other (d : Char) (plain : startsWord d = false) : c ≠ d := by
    rintro rfl
    rw [starts] at plain
    cases plain
  have solid : Solid (c :: (tail ++ after)) := solid_of_head (startsToken_of_startsWord starts)
  rw [List.cons_append] at read ⊢
  refine operand_of_primary solid (other _ rfl) (other _ rfl) ?_
  refine .bind (.mark (.of_solid solid)) fun start ⟨same, _⟩ => ?_
  rw [same]
  have literal : number? (c :: (tail ++ after)) = Option.none := by
    have digit : c.isDigit = false := by
      by_contra digit
      rw [digit_not_startsWord (by simpa using digit)] at starts
      cases starts
    have zero : c ≠ '0' := other _ rfl
    unfold number?
    split
    · rename_i equal
      exact absurd (List.cons.inj equal).1 zero
    · simp [digitsOf?, digit]
  split
  case h_6 => simpa only [literal] using read
  all_goals
    rename_i equal
    exact absurd (List.cons.inj equal).1 (other _ rfl)

/-- A name that is an expression of its own: no literal word, and not the word of a repetition. -/
structure BareName (word : List Char) : Prop where
  whole : name? word = some word
  literal : String.ofList word ∉ ["true", "false", "null"]
  single : word ≠ "for".toList

namespace BareName

variable {word : List Char}

theorem head (bare : BareName word) :
    ∃ c rest, word = c :: rest ∧ startsExpression c = true := by
  obtain ⟨c, tail, none, split, rfl, starts, -⟩ := name?_shape bare.whole
  exact ⟨c, tail, rfl, startsExpression_of_startsWord starts⟩

theorem not_for (bare : BareName word) {after : List Char} (ends : NameEnds after) :
    (name? (word ++ after) == some "for".toList) = false := by
  rw [name?_append bare.whole ends]
  simpa using bare.single

theorem starts (bare : BareName word) : Starts word :=
  ⟨bare.head, fun _ ends => bare.not_for ends.name⟩

/-- What is read after the literal words are ruled out. -/
theorem named {bound : Nat} {text after : List Char} {inner : Reader Expr} (bare : BareName word)
    (before : Gap.Before (word ++ after) (word ++ after)) (ends : NameEnds after)
    (read : ∀ (start : Cursor) (slice : Slice), start.rest = word ++ after →
      start.position + (word ++ after).length = total → slice.text = word →
      Reads total (do
        match ← ahead with
        | '(' :: _ =>
            let (arguments, expanded) ← arguments bound inner
            return .call (← sliceFrom start) slice arguments expanded
        | _ => return .reference slice) after text good) :
    Reads total (Reader.named bound inner) (word ++ after) text good := by
  refine .bind (.mark before) fun start ⟨same, place⟩ => ?_
  refine .bind (.name before (name?_append bare.whole ends)) fun slice text => ?_
  have other : slice.string ∉ ["true", "false", "null"] := by
    rw [Slice.string, text]
    exact bare.literal
  split
  · simp_all
  · simp_all
  · simp_all
  · exact read start slice same place text

end BareName

namespace Writes

theorem name {word : List Char} (bare : BareName word) :
    Writes word fun e => ∃ slice : Slice, slice.text = word ∧ e = .reference slice := by
  refine of_operand bare.starts fun total bound after enough closes => ?_
  refine operand_named bare.whole (bare.named (bare.starts.before after) closes.ends.name ?_)
  intro start slice same place text
  obtain ⟨c, rest, before, other⟩ := closes.not_call
  refine .bind (.ahead before) fun next ahead => ?_
  rw [ahead]
  split
  · rename_i equal
    exact absurd (List.cons.inj equal).1 other
  · exact .pure ⟨slice, text, rfl⟩

/-- A call of a function with one argument. -/
theorem call {function argument : List Char} (bare : BareName function)
    (inside : Writes argument good) :
    Writes (function ++ '(' :: (argument ++ [')'])) fun e => ∃ slice word inner,
      e = .call slice word [inner] false ∧ word.text = function ∧ good inner := by
  have paren (after : List Char) : NameEnds ('(' :: after) := by
    rintro _ ⟨⟩
    decide
  have starts : Starts (function ++ '(' :: (argument ++ [')'])) := by
    obtain ⟨c, tail, rfl, head⟩ := bare.head
    refine ⟨⟨c, _, rfl, head⟩, fun after _ => ?_⟩
    rw [List.append_assoc]
    exact bare.not_for (paren _)
  refine of_operand starts fun total bound after enough closes => ?_
  have split : function ++ '(' :: (argument ++ [')']) ++ after =
      function ++ '(' :: (argument ++ ')' :: after) := by simp
  rw [split]
  refine operand_named bare.whole (bare.named (bare.starts.before _) (paren _) ?_)
  intro start slice same place text
  have opens : Gap.Before ('(' :: (argument ++ ')' :: after)) ('(' :: (argument ++ ')' :: after)) :=
    .here rfl
  have closing : Gap.Before (')' :: after) (')' :: after) := .here rfl
  refine .bind (.ahead opens) ?_
  rintro _ rfl
  have shorter : argument.length < bound + 1 := by
    simp only [List.length_append, List.length_cons] at enough
    omega
  have first := inside.reads total (bound + 1) (argument ++ ')' :: after) (')' :: after) shorter
    (inside.before _) (.sign after (by simp))
  have list : Reads total (arguments (bound + 1) (expression (bound + 1)))
      ('(' :: (argument ++ ')' :: after)) after
      fun found => ∃ e, found = ([e], false) ∧ good e := by
    refine .bind (.symbol opens) fun _ _ => ?_
    refine .bind (.optional_false (inside.before _) (inside.not_prefix _ (by simp))) ?_
    rintro _ rfl
    refine .bind first fun e holds => .bind (listRest_done _ _ (.inr rfl)) ?_
    rintro _ rfl
    refine .bind (.optional_false closing rfl) ?_
    rintro _ rfl
    exact .bind (.symbol closing) fun _ _ => .pure ⟨e, rfl, holds⟩
  refine .bind list ?_
  rintro _ ⟨e, rfl, holds⟩
  have taken : start.rest = function ++ '(' :: (argument ++ [')']) ++ after := by
    rw [same, split]
  exact .bind (.sliceFrom taken (by rw [split]; exact place)) fun whole _ =>
    .pure ⟨whole, slice, e, rfl, text, holds⟩

end Writes

theorem Gap.Before.blanks {gap text rest : List Char} (blank : ∀ c ∈ gap, c = ' ')
    (before : Gap.Before text rest) : Gap.Before (gap ++ text) rest := by
  induction gap with
  | nil => exact before
  | cons c gap ih =>
    have here : isBlank c = true := by rw [blank c List.mem_cons_self]; rfl
    exact .cons here (ih fun d member => blank d (List.mem_cons_of_mem c member))

section Lists

variable {α : Type} {gap : List Char} {text : α → List Char} {means : α → Expr → Prop}
  {items : List α}

theorem closes_moreText (items : List α) {close : Char} (closing : close ∈ [',', ']', '}', ')'])
    (after : List Char) : Closes (moreText gap text items ++ close :: after) := by
  cases items with
  | nil => exact .sign after closing
  | cons item rest => exact .sign _ (by simp)

/-- The items after the first. -/
theorem listRest_moreText {bound depth : Nat} {after : List Char} (blank : ∀ c ∈ gap, c = ' ')
    (each : ∀ item ∈ items, Writes (text item) (means item))
    (deep : (moreText gap text items).length < depth)
    (enough : (moreText gap text items).length < bound) :
    Reads total (listRest bound (expression depth) ']') (moreText gap text items ++ ']' :: after)
      (']' :: after) (List.Forall₂ means items) := by
  induction items generalizing bound with
  | nil =>
    obtain ⟨bound, rfl⟩ : ∃ smaller, bound = smaller + 1 := ⟨bound - 1, by omega⟩
    exact (listRest_done bound after (.inl rfl)).mono fun list none => by rw [none]; exact .nil
  | cons item rest ih =>
    rw [moreText] at enough deep ⊢
    simp only [List.length_cons, List.length_append] at enough deep
    obtain ⟨bound, rfl⟩ : ∃ smaller, bound = smaller + 1 := ⟨bound - 1, by omega⟩
    have writes := each item List.mem_cons_self
    have later := @ih bound (fun item inside => each item (List.mem_cons_of_mem _ inside))
      (by omega) (by omega)
    have split : ',' :: (gap ++ (text item ++ moreText gap text rest)) ++ ']' :: after =
        ',' :: (gap ++ (text item ++ (moreText gap text rest ++ ']' :: after))) := by simp
    have before : Gap.Before (gap ++ (text item ++ (moreText gap text rest ++ ']' :: after)))
        (text item ++ (moreText gap text rest ++ ']' :: after)) :=
      .blanks blank (writes.before _)
    rw [split]
    refine (Reads.repeated_more (means item) ?_ later).mono ?_
    · refine .bind (.optional_true (.here rfl)) ?_
      rintro _ rfl
      refine .bind (.ahead before) ?_
      rintro next rfl
      split
      case h_2 same =>
        obtain ⟨c, begun, shape, -⟩ := writes.head
        simp [shape] at same
      rename_i c _ same
      have other : c ≠ ']' := by
        rintro rfl
        exact writes.not_sign _ (by simp) _ same
      rw [if_neg other]
      exact .bind (writes.reads _ _ _ _ (by omega) before (closes_moreText rest (by simp) after))
        fun e holds => .pure ⟨e, rfl, holds⟩
    · rintro list ⟨e, others, rfl, first, all⟩
      exact .cons first all

/-- A text in brackets is read as a tuple. -/
theorem Writes.tuple (blank : ∀ c ∈ gap, c = ' ')
    (each : ∀ item ∈ items, Writes (text item) (means item)) :
    Writes ('[' :: (listText gap text items ++ [']'])) fun e =>
      ∃ slice inside, e = .tuple slice inside ∧ List.Forall₂ means items inside := by
  refine of_operand (.of_head _ rfl rfl) fun total bound after enough closes => ?_
  have split : '[' :: (listText gap text items ++ [']']) ++ after =
      '[' :: (listText gap text items ++ ']' :: after) := by simp
  have opens (rest : List Char) : Solid ('[' :: rest) := solid_of_head rfl
  rw [split]
  refine operand_of_primary (opens _) (by decide) (by decide) ?_
  refine .bind (.mark (.of_solid (opens _))) fun start ⟨same, _⟩ => ?_
  rw [same]
  refine .bind .get fun start ⟨same, place⟩ => .bind (.take_one '[' _) fun _ _ => ?_
  have closing : Gap.Before (']' :: after) (']' :: after) := .here rfl
  rw [← split] at place same
  cases items with
  | nil =>
    refine .bind (.wordAhead _ closing) fun repetition no => ?_
    rw [no]
    refine .bind (.optional_true closing) ?_
    rintro _ rfl
    exact .bind (.sliceFrom same place) fun slice _ => .pure ⟨slice, [], rfl, .nil⟩
  | cons item rest =>
    have writes := each item List.mem_cons_self
    have further : Closes (moreText gap text rest ++ ']' :: after) :=
      closes_moreText rest (by simp) after
    have lengths : (text item).length < bound + 1 ∧ (moreText gap text rest).length < bound + 1 := by
      rw [listText] at enough
      simp only [List.length_cons, List.length_append] at enough
      omega
    rw [listText, List.append_assoc]
    refine .bind (.wordAhead _ (writes.before _)) fun repetition no => ?_
    rw [no, writes.single _ further.ends]
    refine .bind (.optional_false (writes.before _) (writes.not_prefix _ (by simp))) ?_
    rintro _ rfl
    refine .bind (writes.reads _ _ _ _ lengths.1 (writes.before _) further)
      fun first holds => ?_
    refine .bind (listRest_moreText blank (fun other inside => each other (.tail _ inside))
      lengths.2 lengths.2) fun others all => ?_
    exact .bind (.symbol closing) fun _ _ => .bind (.sliceFrom same place) fun slice _ =>
      .pure ⟨slice, first :: others, rfl, .cons holds all⟩

variable {key : α → List Char} {names : α → Expr → Prop} {item : α}

theorem entryText_append (after : List Char) : entryText gap text key item ++ after =
    key item ++ (gap ++ '=' :: (gap ++ (text item ++ after))) := by
  simp [entryText]

theorem Starts.equals (blank : ∀ c ∈ gap, c = ' ') (starts : Starts (text item))
    (after : List Char) : Closes (gap ++ '=' :: (gap ++ (text item ++ after))) := by
  refine .gaps blank (.equals fun same => ?_)
  cases gap with
  | nil =>
    obtain ⟨rest, split⟩ := List.head?_eq_some_iff.mp same
    exact starts.not_sign after (by simp) rest split
  | cons c gap =>
    obtain rfl := blank c List.mem_cons_self
    cases same

theorem Starts.entryText (blank : ∀ c ∈ gap, c = ' ') (named : Starts (key item))
    (starts : Starts (text item)) : Starts (entryText gap text key item) := by
  constructor
  · obtain ⟨c, rest, shape, head⟩ := named.head
    exact ⟨c, _, by rw [Hcl.entryText, shape, List.cons_append], head⟩
  · intro after _
    rw [entryText_append]
    exact named.single _ (starts.equals blank after).ends

theorem element_entryText {depth : Nat} {start after : List Char}
    (blank : ∀ c ∈ gap, c = ' ') (named : Writes (key item) (names item))
    (writes : Writes (text item) (means item))
    (deep : (entryText gap text key item).length < depth)
    (before : Gap.Before start (entryText gap text key item ++ after)) (closes : Closes after) :
    Reads total (element (expression depth)) start after
      fun found => names item found.1 ∧ means item found.2 := by
  simp only [entryText, List.length_append, List.length_cons] at deep
  rw [entryText_append] at before
  have equals : Gap.Before (gap ++ '=' :: (gap ++ (text item ++ after)))
      ('=' :: (gap ++ (text item ++ after))) := .blanks blank (.here rfl)
  refine .bind (named.reads _ _ _ _ (by omega) before (writes.equals blank after)) ?_
  intro found holds
  refine .bind (.optional_false equals rfl) ?_
  rintro _ rfl
  refine .bind (.symbol equals) fun _ _ => ?_
  refine .bind (writes.reads _ _ _ _ (by omega) (.blanks blank (writes.before _)) closes) ?_
  exact fun inner good => .pure ⟨holds, good⟩

/-- The entries after the first. -/
theorem elementsRest_moreText {bound depth : Nat} {after : List Char}
    (blank : ∀ c ∈ gap, c = ' ') (keys : ∀ item ∈ items, Writes (key item) (names item))
    (each : ∀ item ∈ items, Writes (text item) (means item))
    (deep : (moreText gap (entryText gap text key) items).length < depth)
    (enough : (moreText gap (entryText gap text key) items).length < bound) :
    Reads total (elementsRest bound (expression depth))
      (moreText gap (entryText gap text key) items ++ '}' :: after) ('}' :: after)
      (List.Forall₂ (fun item found => names item found.1 ∧ means item found.2) items) := by
  have closing : Gap.Before ('}' :: after) ('}' :: after) := .here rfl
  induction items generalizing bound with
  | nil =>
    obtain ⟨bound, rfl⟩ : ∃ smaller, bound = smaller + 1 := ⟨bound - 1, by omega⟩
    refine (Reads.repeated_done bound ?_).mono fun list none => by rw [none]; exact .nil
    refine .bind (.optional_false closing rfl) fun comma _ => .bind (.ahead closing) ?_
    rintro next rfl
    exact .pure rfl
  | cons item rest ih =>
    rw [moreText] at enough deep ⊢
    simp only [List.length_cons, List.length_append] at enough deep
    obtain ⟨bound, rfl⟩ : ∃ smaller, bound = smaller + 1 := ⟨bound - 1, by omega⟩
    have named := keys item List.mem_cons_self
    have later := @ih bound (fun item inside => keys item (.tail _ inside))
      (fun item inside => each item (.tail _ inside)) (by omega) (by omega)
    have split : ',' :: (gap ++ (entryText gap text key item ++
          moreText gap (entryText gap text key) rest)) ++ '}' :: after =
        ',' :: (gap ++ (entryText gap text key item ++
          (moreText gap (entryText gap text key) rest ++ '}' :: after))) := by simp
    have starts : Starts (entryText gap text key item) :=
      .entryText blank named.toStarts (each item List.mem_cons_self).toStarts
    have before : Gap.Before
        (gap ++ (entryText gap text key item ++
          (moreText gap (entryText gap text key) rest ++ '}' :: after))) _ :=
      .blanks blank (starts.before _)
    rw [split]
    refine (Reads.repeated_more (fun found => names item found.1 ∧ means item found.2) ?_
      later).mono ?_
    · refine .bind (.optional_true (.here rfl)) fun comma _ => ?_
      refine .bind (.ahead before) ?_
      rintro next rfl
      split
      · exact absurd ‹_› (starts.not_sign _ (by simp) _)
      refine .bind (element_entryText blank named (each item List.mem_cons_self) (by omega)
        before (closes_moreText rest (by simp) after)) fun element holds => ?_
      exact .pure ⟨element, rfl, holds⟩
    · rintro list ⟨element, others, rfl, first, all⟩
      exact .cons first all

/-- Entries in braces are read as an object. -/
theorem Writes.object (blank : ∀ c ∈ gap, c = ' ')
    (keys : ∀ item ∈ items, Writes (key item) (names item))
    (each : ∀ item ∈ items, Writes (text item) (means item)) :
    Writes ('{' :: (listText gap (entryText gap text key) items ++ ['}'])) fun e =>
      ∃ slice elements, e = .object slice elements ∧
        List.Forall₂ (fun item found => names item found.1 ∧ means item found.2) items elements := by
  refine of_operand (.of_head _ rfl rfl) fun total bound after enough closes => ?_
  have split : '{' :: (listText gap (entryText gap text key) items ++ ['}']) ++ after =
      '{' :: (listText gap (entryText gap text key) items ++ '}' :: after) := by simp
  have opens (rest : List Char) : Solid ('{' :: rest) := solid_of_head rfl
  rw [split]
  refine operand_of_primary (opens _) (by decide) (by decide) ?_
  refine .bind (.mark (.of_solid (opens _))) fun start ⟨same, _⟩ => ?_
  rw [same]
  refine .bind .get fun start ⟨same, place⟩ => .bind (.take_one '{' _) fun _ _ => ?_
  have closing : Gap.Before ('}' :: after) ('}' :: after) := .here rfl
  rw [← split] at place same
  cases items with
  | nil =>
    refine .bind (.wordAhead _ closing) fun repetition no => ?_
    rw [no]
    refine .bind (.optional_true closing) ?_
    rintro _ rfl
    exact .bind (.sliceFrom same place) fun slice _ => .pure ⟨slice, [], rfl, .nil⟩
  | cons item rest =>
    have named := keys item List.mem_cons_self
    have writes := each item List.mem_cons_self
    have starts : Starts (entryText gap text key item) :=
      .entryText blank named.toStarts writes.toStarts
    have further : Closes (moreText gap (entryText gap text key) rest ++ '}' :: after) :=
      closes_moreText rest (by simp) after
    have lengths : (entryText gap text key item).length < bound + 1 ∧
        (moreText gap (entryText gap text key) rest).length < bound + 1 := by
      rw [listText] at enough
      simp only [List.length_cons, List.length_append] at enough
      omega
    rw [listText, List.append_assoc]
    refine .bind (.wordAhead _ (starts.before _)) fun repetition no => ?_
    rw [no, starts.single _ further.ends]
    refine .bind (.optional_false (starts.before _) (starts.not_prefix _ (by simp))) ?_
    rintro _ rfl
    refine .bind (element_entryText blank named writes lengths.1 (starts.before _) further)
      fun first holds => ?_
    refine .bind (elementsRest_moreText blank (fun other inside => keys other (.tail _ inside))
      (fun other inside => each other (.tail _ inside)) lengths.2 lengths.2) fun others all => ?_
    exact .bind (.symbol closing) fun _ _ => .bind (.sliceFrom same place) fun slice _ =>
      .pure ⟨slice, first :: others, rfl, .cons holds all⟩

end Lists

end TerraDoc.Hcl
