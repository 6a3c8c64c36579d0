import TerraDoc.Proofs.NumberText

/-!
How numbers are shown. The text of a number is in plain decimals in which no digit could be left
out, it is short, and it denotes that number and no other.
-/

namespace TerraDoc.Number

/-- A text in plain decimals: perhaps a minus, digits none of which stands in vain in front, and
perhaps a point with digits that do not end in 0. Zero has no minus. -/
inductive Plain : List Char → Prop where
  | unsigned {text whole fraction : List Char} (decimal : Decimal text whole fraction)
      (last : fraction.getLast? ≠ some '0') : Plain text
  | negative {text whole fraction : List Char} (decimal : Decimal text whole fraction)
      (last : fraction.getLast? ≠ some '0') (nonzero : text ≠ ['0']) : Plain ('-' :: text)

/-- A number with digits after the point ends in its last significant digit. -/
theorem getLast?_magnitudeText {n : Number} (point : '.' ∈ n.magnitudeText) :
    n.magnitudeText.getLast? = n.digits.getLast? ∧ n.coefficient ≠ 0 := by
  have nonzero (below : n.exponent ≠ 0) : n.coefficient ≠ 0 := fun none =>
    below (n.normal.1 none).2
  have last := List.getLast?_eq_some_getLast n.digits_ne_nil
  unfold magnitudeText at point ⊢
  cases exponent : n.exponent with
  | ofNat zeros =>
    rw [exponent] at point
    rcases List.mem_append.mp point with inside | inside
    · exact absurd (n.digits_shape '.' inside) (by decide)
    · exact absurd (digits_replicate_zero zeros '.' inside) (by decide)
  | negSucc less =>
    refine ⟨?_, nonzero (by rw [exponent]; exact Int.negSucc_ne_zero less)⟩
    dsimp only
    split
    · rename_i inside
      rw [List.getLast?_append, List.getLast?_cons, List.getLast?_drop, if_neg (by omega), last]
      rfl
    · rw [List.getLast?_cons, List.getLast?_cons, List.getLast?_append, last]
      rfl

theorem getLast?_fraction (n : Number) {whole fraction : List Char}
    (decimal : Decimal n.magnitudeText whole fraction) : fraction.getLast? ≠ some '0' := by
  generalize same : n.magnitudeText = text at decimal
  cases decimal with
  | integer => simp
  | pointed whole fraction _ _ _ _ more =>
    obtain ⟨last, nonzero⟩ := getLast?_magnitudeText (n := n) (by rw [same]; simp)
    have ends : n.magnitudeText.getLast? = fraction.getLast? := by
      rw [same, List.getLast?_append, List.getLast?_cons, List.getLast?_eq_some_getLast more]
      rfl
    rw [← ends, last]
    exact getLast?_toDigits (n.normal.2 nonzero)

theorem coefficient_eq_zero {n : Number} (same : n.magnitudeText = ['0']) : n.coefficient = 0 := by
  obtain ⟨whole, fraction, decimal, value⟩ := n.magnitudeText_decimal
  rw [← scaled_eq_zero_iff n.coefficient n.exponent, ← value]
  generalize n.magnitudeText = text at same decimal
  cases decimal with
  | integer =>
    rw [same]
    simp [digitsValue, Nat.ofDigitChars]
  | pointed whole fraction =>
    have point : '.' ∈ ['0'] := by rw [← same]; simp
    exact absurd point (by decide)

theorem plain_text (n : Number) : Plain n.text := by
  obtain ⟨whole, fraction, decimal, -⟩ := n.magnitudeText_decimal
  have last := n.getLast?_fraction decimal
  rw [text]
  split
  · rename_i negative
    refine .negative decimal last fun zero => ?_
    rw [(n.normal.1 (coefficient_eq_zero zero)).1] at negative
    cases negative
  · exact .unsigned decimal last

theorem length_magnitudeText (n : Number) :
    (n.magnitudeText.length : Int) ≤ max (n.digits.length + n.exponent) (n.digits.length + 1) ∨
      (n.magnitudeText.length : Int) = 2 - n.exponent := by
  unfold magnitudeText
  cases exponent : n.exponent with
  | ofNat zeros =>
    left
    simp
  | negSucc less =>
    dsimp only
    split
    · left
      simp
      omega
    · right
      simp
      omega

theorem not_mark_of_mem_text (n : Number) {c : Char} (inside : c ∈ n.text) :
    isExponentMark c = false := by
  rcases mem_text inside with digit | rfl | rfl
  · exact digit_cases (fun c => isExponentMark c = false) (by decide) digit
  · rfl
  · rfl

theorem length_text {n : Number} (within : n.inRange = true) : n.text.length ≤ 8194 := by
  have sign : n.text.length ≤ n.magnitudeText.length + 1 := by
    rw [text]
    split <;> simp
  have digits : 0 < n.digits.length := List.length_pos_iff.mpr n.digits_ne_nil
  rw [inRange, Bool.or_eq_true, Bool.and_eq_true, decide_eq_true_eq, decide_eq_true_eq, range] at within
  have length := n.length_magnitudeText
  rcases within with zero | ⟨exponent, front⟩
  · rw [isZero, beq_iff_eq] at zero
    have single : n.digits.length = 1 := by simp [Number.digits, zero]
    have flat := (n.normal.1 zero).2
    omega
  · omega

/-- Numbers within range are shown in one canonical way: in plain decimals, without an exponent and
in at most 8194 characters; the text denotes the number, and is read back as it, so that numbers are
shown alike just when they are equal. -/
theorem display_canonical (n : Number) (within : n.inRange = true) :
    Plain n.toString.toList ∧ (∀ c ∈ n.toString.toList, isExponentMark c = false) ∧
      n.toString.length ≤ 8194 ∧ Denotes n.toString.toList n.toRat ∧
      parse n.toString.toList = .ok n ∧
      ∀ m : Number, m.inRange = true → (m.toString = n.toString ↔ m = n) := by
  have shown (m : Number) : m.toString.toList = m.text := String.toList_ofList
  have read := parse_text within
  rw [← String.length_toList, shown]
  refine ⟨n.plain_text, fun c => n.not_mark_of_mem_text, length_text within,
    ((parse_eq_ok_iff _ _).mp read).1, read, fun m within' => ⟨fun same => ?_, congrArg toString⟩⟩
  have read' := parse_text within'
  rw [← shown, same, shown, read] at read'
  exact (Except.ok.inj read').symm

/-- Minus twelve and a half is shown as `-12.5`, and nothing else is. -/
theorem display_canonical_negative :
    (⟨true, 125, -1, by decide⟩ : Number).inRange = true ∧
      (⟨true, 125, -1, by decide⟩ : Number).toString = "-12.5" ∧ Plain "-12.5".toList ∧
      parse "-12.5".toList = .ok ⟨true, 125, -1, by decide⟩ ∧
      ∀ m : Number, m.inRange = true → m.toString = "-12.5" → m = ⟨true, 125, -1, by decide⟩ := by
  have within : (⟨true, 125, -1, by decide⟩ : Number).inRange = true := by decide
  have shown : (⟨true, 125, -1, by decide⟩ : Number).toString = "-12.5" := by decide
  obtain ⟨plain, -, -, -, read, only⟩ := display_canonical _ within
  rw [shown] at plain read only
  exact ⟨within, shown, plain, read, fun m within' => (only m within').mp⟩

end TerraDoc.Number
