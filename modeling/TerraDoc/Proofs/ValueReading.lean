import TerraDoc.Hcl.Literal
import TerraDoc.Proofs.NameScan
import TerraDoc.Proofs.NumberText
import TerraDoc.Proofs.ReaderRun
import TerraDoc.Proofs.ValueSource

namespace TerraDoc.Hcl

open Reader Exponent

theorem isPlain_of_quotedPlain {c : Char} (plain : isQuotedPlain c = true) : isPlain c = true := by
  simp only [isQuotedPlain, List.contains_cons, Bool.not_or, Bool.and_eq_true,
    Bool.not_eq_true', beq_eq_false_iff_ne] at plain
  simp [isPlain, plain]

/-- A character between quotes is a stretch of its own, unless it stands for itself. -/
theorem Escaped.step {c : Char} {text : List Char} (escaped : Escaped c text) :
    (isPlain c = true ∧ text = [c]) ∨ ∃ rest, text = '\\' :: rest ∧
      ∀ more, escapeLength? (rest ++ more) = some rest.length := by
  cases escaped with
  | plain plain => exact .inl ⟨isPlain_of_quotedPlain plain, rfl⟩
  | @short letter short =>
    refine .inr ⟨[letter], rfl, fun more => ?_⟩
    unfold Quoted.short? at short
    split at short <;> simp_all [escapeLength?]
  | @coded d₁ d₂ d₃ d₄ hex coded =>
    refine .inr ⟨['u', d₁, d₂, d₃, d₄], rfl, fun more => ?_⟩
    have all : [d₁, d₂, d₃, d₄].filter isHexDigit = [d₁, d₂, d₃, d₄] :=
      List.filter_eq_self.mpr hex
    simp [escapeLength?, all]

theorem takeWhile_escaped (text after : List Char) :
    ∃ first second, text = first ++ second ∧
      (text.flatMap Value.escaped ++ '"' :: after).takeWhile isPlain =
        first.flatMap Value.escaped := by
  induction text with
  | nil => exact ⟨[], [], rfl, rfl⟩
  | cons c text ih =>
    rcases (escaped_escaped c).step with ⟨plain, single⟩ | ⟨rest, escape, -⟩
    · obtain ⟨first, second, split, run⟩ := ih
      refine ⟨c :: first, second, by rw [split, List.cons_append], ?_⟩
      rw [List.flatMap_cons, List.flatMap_cons, single, List.append_assoc, List.singleton_append,
        List.takeWhile_cons_of_pos plain, run, List.singleton_append]
    · refine ⟨[], c :: text, rfl, ?_⟩
      rw [List.flatMap_cons, escape]
      rfl

namespace Reads

variable {total : Nat}

theorem quotedPart_end (expression : Reader Expr) (after : List Char) :
    Reads total (quotedPart expression) ('"' :: after) ('"' :: after) (· = none) :=
  bind get fun c ⟨same, _⟩ => by
    rw [same]
    exact pure rfl

theorem quotedPart_plain (expression : Reader Expr) {c : Char} {rest stretch left : List Char}
    (plain : isPlain c = true) (run : (c :: rest).takeWhile isPlain = stretch)
    (whole : c :: rest = stretch ++ left) :
    Reads total (quotedPart expression) (c :: rest) left (· = some []) := by
  simp only [isPlain, Bool.and_eq_true, bne_iff_ne] at plain
  refine bind get fun cursor ⟨same, _⟩ => ?_
  rw [same]
  split
  case h_5 _ _ _ _ _ _ equal =>
    rw [← equal, run, whole]
    exact bind (token .text stretch left) fun _ _ => pure rfl
  case h_6 _ equal => cases equal
  all_goals
    rename_i equal
    simp only [List.cons.injEq] at equal
    simp [equal] at plain

theorem quotedPart_escape (expression : Reader Expr) {escape left : List Char}
    (length : escapeLength? (escape ++ left) = some escape.length) :
    Reads total (quotedPart expression) ('\\' :: (escape ++ left)) left (· = some []) := by
  refine bind get fun cursor ⟨same, _⟩ => ?_
  rw [same]
  simp only [length]
  exact bind (token .text ('\\' :: escape) left) fun _ _ => pure rfl

/-- One stretch of a written text is read, and what is left of the text is shorter. -/
theorem quotedPart_escaped (total : Nat) (expression : Reader Expr) (c : Char) (text after : List Char) :
    ∃ others : List Char, (others.flatMap Value.escaped).length <
        ((c :: text).flatMap Value.escaped).length ∧
      Reads total (quotedPart expression) ((c :: text).flatMap Value.escaped ++ '"' :: after)
        (others.flatMap Value.escaped ++ '"' :: after) (· = some []) := by
  rcases (escaped_escaped c).step with ⟨plain, single⟩ | ⟨rest, escape, length⟩
  · obtain ⟨first, second, split, run⟩ := takeWhile_escaped (c :: text) after
    have nonempty : first.flatMap Value.escaped ≠ [] := by
      rw [← run, List.flatMap_cons, single]
      simp [plain]
    refine ⟨second, ?_, ?_⟩
    · have := List.length_pos_iff.mpr nonempty
      rw [split, List.flatMap_append, List.length_append]
      omega
    · have whole : (c :: text).flatMap Value.escaped ++ '"' :: after =
          first.flatMap Value.escaped ++ (second.flatMap Value.escaped ++ '"' :: after) := by
        rw [split, List.flatMap_append, List.append_assoc]
      rw [List.flatMap_cons, single] at run whole ⊢
      exact quotedPart_plain expression plain run whole
  · refine ⟨text, ?_, ?_⟩
    · rw [List.flatMap_cons, escape, List.length_append, List.length_cons]
      omega
    · rw [List.flatMap_cons, escape, List.append_assoc, List.cons_append]
      exact quotedPart_escape expression (length _)

theorem quotedParts (expression : Reader Expr) (after : List Char) (bound : Nat) :
    ∀ text : List Char, (text.flatMap Value.escaped).length < bound →
      Reads total (Reading.repeated bound (quotedPart expression))
        (text.flatMap Value.escaped ++ '"' :: after) ('"' :: after) (·.flatten = []) := by
  induction bound with
  | zero => exact fun _ enough => absurd enough (Nat.not_lt_zero _)
  | succ bound ih =>
    intro text enough
    cases text with
    | nil => exact (repeated_done bound (quotedPart_end expression after)).mono (by simp)
    | cons c text =>
      obtain ⟨others, shorter, read⟩ := quotedPart_escaped total expression c text after
      have later := ih others (by omega)
      have stretch := read.mono fun found same => (⟨[], same, rfl⟩ : ∃ a, found = some a ∧ a = [])
      refine (repeated_more _ stretch later).mono ?_
      rintro list ⟨part, others, rfl, rfl, plain⟩
      simpa using plain

end Reads

theorem quoted_quotedText {total : Nat} (expression : Reader Expr) (text : String)
    (after : List Char) {bound : Nat} (enough : (Value.quotedText text).length ≤ bound) :
    Reads total (quoted bound expression) (Value.quotedText text ++ after) after
      fun e => ∃ slice : Slice, slice.text = Value.quotedText text ∧ e = .quoted slice := by
  have shorter : (text.toList.flatMap Value.escaped).length < bound := by
    simp only [Value.quotedText, List.length_cons, List.length_append] at enough
    omega
  have whole : Value.quotedText text ++ after =
      '"' :: (text.toList.flatMap Value.escaped ++ '"' :: after) := by simp [Value.quotedText]
  refine .bind .get fun start found => ?_
  obtain ⟨same, place⟩ := found
  rw [whole]
  refine .bind (.take_one '"' _) fun _ _ => ?_
  refine .bind (.quotedParts expression after bound text.toList shorter) fun parts plain => ?_
  refine .bind (.take_one '"' after) fun _ _ => .bind (.sliceFrom same place) fun slice read => ?_
  rw [plain]
  exact .bind (.keep _) fun _ _ => .pure ⟨slice, read, rfl⟩

theorem takeWhile_isDigit {digits after : List Char} (shape : Number.Digits digits)
    (ends : ∀ c ∈ after.head?, c.isDigit = false) :
    (digits ++ after).takeWhile Char.isDigit = digits := by
  rw [List.takeWhile_append_of_pos shape]
  cases after with
  | nil => simp
  | cons c rest => simp [ends c rfl]

theorem digitsOf?_append {digits after : List Char} (shape : Number.Digits digits)
    (nonempty : digits ≠ []) (ends : ∀ c ∈ after.head?, c.isDigit = false) :
    digitsOf? (digits ++ after) = some digits := by
  unfold digitsOf?
  rw [takeWhile_isDigit shape ends]
  cases digits with
  | nil => exact absurd rfl nonempty
  | cons c digits => rfl

theorem fractionOf_append {fraction after : List Char} (shape : Number.Digits fraction)
    (nonempty : fraction ≠ [])
    (ends : ∀ c ∈ after.head?, c.isDigit = false ∧ isMark c = false) :
    fractionOf ('.' :: (fraction ++ after)) = '.' :: fraction := by
  have power : powerOf after = [] := by
    cases after with
    | nil => rfl
    | cons c rest =>
      have unmarked := (ends c rfl).2
      simp only [isMark, Bool.or_eq_false_iff, beq_eq_false_iff_ne] at unmarked
      simp [powerOf, unmarked]
  simp [fractionOf, digitsOf?_append shape nonempty fun c first => (ends c first).1, power]

theorem number?_append {whole after : List Char} (shape : Number.Digits whole)
    (nonempty : whole ≠ []) (ends : ∀ c ∈ after.head?, c.isDigit = false ∧ c ≠ 'x') :
    number? (whole ++ after) = some (whole ++ fractionOf after) := by
  have digits := digitsOf?_append shape nonempty fun c first => (ends c first).1
  unfold number?
  split
  · rename_i rest hex
    exfalso
    match whole, nonempty with
    | [d], _ =>
      obtain ⟨-, rfl⟩ := List.cons.inj hex
      exact (ends 'x' rfl).2 rfl
    | d :: e :: more, _ =>
      obtain ⟨-, same⟩ := List.cons.inj hex
      have digit := shape e (by simp)
      rw [(List.cons.inj same).1] at digit
      exact absurd digit (by decide)
  · simp [digits]

theorem number?_decimal {text whole fraction after : List Char}
    (decimal : Number.Decimal text whole fraction) (ends : Ends after) :
    number? (text ++ after) = some text := by
  obtain ⟨c, rest, rfl, word, digit, mark, -, point⟩ := ends.head
  cases decimal with
  | integer _ shape nonempty _ =>
    have none : fractionOf (c :: rest) = [] := by simp [fractionOf, point]
    rw [number?_append shape nonempty, none, List.append_nil]
    rintro _ ⟨⟩
    exact ⟨digit, by rintro rfl; exact absurd word (by decide)⟩
  | pointed whole fraction shape nonempty _ places more =>
    rw [List.append_assoc, number?_append shape nonempty, List.cons_append,
      fractionOf_append places more]
    · rintro _ ⟨⟩
      exact ⟨digit, mark⟩
    · rintro _ ⟨⟩
      exact ⟨by decide, by decide⟩

end TerraDoc.Hcl
