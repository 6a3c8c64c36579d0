import TerraDoc.Proofs.CharacterClasses
import TerraDoc.Proofs.NumberConstruction

namespace TerraDoc.Number

/-- A decimal as it is written: digits, none of them in vain in front, and perhaps more digits
after a point. -/
inductive Decimal : List Char → List Char → List Char → Prop where
  | integer (whole : List Char) (shape : Digits whole) (nonempty : whole ≠ [])
      (front : whole.head? = some '0' → whole = ['0']) : Decimal whole whole []
  | pointed (whole fraction : List Char) (shape : Digits whole) (nonempty : whole ≠ [])
      (front : whole.head? = some '0' → whole = ['0']) (places : Digits fraction)
      (more : fraction ≠ []) : Decimal (whole ++ '.' :: fraction) whole fraction

theorem Decimal.mantissa {text whole fraction : List Char} (decimal : Decimal text whole fraction) :
    Mantissa text whole fraction := by
  cases decimal with
  | integer _ shape nonempty _ => exact .integer text shape nonempty
  | pointed _ _ shape nonempty _ places _ =>
    refine .decimal whole fraction ?_ (by simp [nonempty])
    intro c membership
    rcases List.mem_append.mp membership with inside | inside
    · exact shape c inside
    · exact places c inside

theorem digits_shape (n : Number) : Digits n.digits := fun _ membership =>
  Nat.isDigit_of_mem_toDigits (by decide) (by decide) membership

theorem digits_ne_nil (n : Number) : n.digits ≠ [] :=
  Nat.toDigits_ne_nil

theorem digits_replicate_zero (count : Nat) : Digits (List.replicate count '0') := by
  intro c membership
  rw [List.eq_of_mem_replicate membership]
  rfl

private theorem front_append {front rest : List Char} (nonempty : front ≠ [])
    (canonical : (front ++ rest).head? = some '0' → front ++ rest = ['0']) :
    front.head? = some '0' → front = ['0'] := by
  intro zero
  rw [List.head?_append, zero] at canonical
  have whole := canonical rfl
  cases front with
  | nil => exact absurd rfl nonempty
  | cons c front => simp_all

/-- How a magnitude is written, and which digits it has. -/
theorem magnitudeText_decimal (n : Number) :
    ∃ whole fraction, Decimal n.magnitudeText whole fraction ∧
      (digitsValue (whole ++ fraction) : ℚ) * 10 ^ (-fraction.length : Int) =
        n.coefficient * 10 ^ n.exponent := by
  have value : digitsValue n.digits = n.coefficient := Nat.ofDigitChars_ten_toDigits
  have front := n.canonical.first
  unfold magnitudeText
  cases exponent : n.exponent with
  | ofNat zeros =>
    refine ⟨n.digits ++ List.replicate zeros '0', [], .integer _ ?_ ?_ ?_, ?_⟩
    · intro c membership
      rcases List.mem_append.mp membership with inside | inside
      · exact n.digits_shape c inside
      · exact digits_replicate_zero zeros c inside
    · simp [n.digits_ne_nil]
    · intro zero
      have single : n.digits = ['0'] := by
        rw [List.head?_append, Option.or_of_isSome (by simp [n.digits_ne_nil])] at zero
        exact front zero
      have none : zeros = 0 := by
        have := (n.canonical.zero single).2
        rw [exponent] at this
        exact Int.ofNat.inj this
      simp [single, none]
    · have shifted : digitsValue (n.digits ++ List.replicate zeros '0') =
          10 ^ zeros * n.coefficient := by
        rw [digitsValue, Nat.ofDigitChars_append, Nat.ofDigitChars_replicate_zero]
        exact congrArg _ value
      simp [shifted, mul_comm]
  | negSucc less =>
    have scale : (Int.negSucc less) = -((less + 1 : Nat) : Int) := rfl
    dsimp only
    split
    · rename_i inside
      set cutoff := n.digits.length - (less + 1) with cut
      have joined : n.digits.take cutoff ++ n.digits.drop cutoff = n.digits :=
        List.take_append_drop _ _
      have nonempty : n.digits.take cutoff ≠ [] := by
        rw [Ne, List.take_eq_nil_iff, not_or]
        exact ⟨by omega, n.digits_ne_nil⟩
      have places : (n.digits.drop cutoff).length = less + 1 := by
        rw [List.length_drop]
        omega
      refine ⟨n.digits.take cutoff, n.digits.drop cutoff, .pointed _ _ ?_ nonempty ?_ ?_ ?_, ?_⟩
      · exact fun c membership => n.digits_shape c (List.mem_of_mem_take membership)
      · exact front_append nonempty (by rw [joined]; exact front)
      · exact fun c membership => n.digits_shape c (List.mem_of_mem_drop membership)
      · exact List.ne_nil_of_length_eq_add_one places
      · rw [joined, value, places, scale]
    · rename_i outside
      have zeros : Digits (List.replicate (less + 1 - n.digits.length) '0' ++ n.digits) := by
        intro c membership
        rcases List.mem_append.mp membership with inside | inside
        · exact digits_replicate_zero _ c inside
        · exact n.digits_shape c inside
      refine ⟨['0'], _, .pointed ['0'] _ (digits_replicate_zero 1) (by simp) (fun _ => rfl) zeros
        (by simp [n.digits_ne_nil]), ?_⟩
      have padded : digitsValue (['0'] ++ (List.replicate (less + 1 - n.digits.length) '0' ++
          n.digits)) = n.coefficient := by
        rw [← value, digitsValue, Nat.ofDigitChars_append, Nat.ofDigitChars_append,
          Nat.ofDigitChars_replicate_zero]
        rfl
      rw [padded, scale, List.length_append, List.length_replicate, Nat.sub_add_cancel (by omega)]

theorem Decimal.mem {text whole fraction : List Char} (decimal : Decimal text whole fraction) :
    ∀ c ∈ text, c.isDigit = true ∨ c = '.' := by
  intro c membership
  cases decimal with
  | integer _ shape _ _ => exact .inl (shape c membership)
  | pointed whole fraction shape _ _ places _ =>
    rcases List.mem_append.mp membership with inside | inside
    · exact .inl (shape c inside)
    rcases List.mem_cons.mp inside with point | inside
    · exact .inr point
    · exact .inl (places c inside)

theorem Decimal.first {text whole fraction : List Char} (decimal : Decimal text whole fraction) :
    ∀ c ∈ text.head?, c.isDigit = true := by
  intro c first
  cases decimal with
  | integer _ shape _ _ => exact shape c (List.mem_of_mem_head? first)
  | pointed whole fraction shape nonempty _ _ _ =>
    rw [List.head?_append, Option.or_of_isSome (by simp [nonempty])] at first
    exact shape c (List.mem_of_mem_head? first)

theorem Decimal.cons {text whole fraction : List Char} (decimal : Decimal text whole fraction) :
    ∃ c rest, text = c :: rest ∧ c.isDigit = true := by
  have nonempty : text ≠ [] := by
    cases decimal with
    | integer _ _ nonempty _ => exact nonempty
    | pointed => simp
  cases text with
  | nil => exact absurd rfl nonempty
  | cons c rest => exact ⟨c, rest, rfl, decimal.first c rfl⟩

theorem Decimal.last {text whole fraction : List Char} (decimal : Decimal text whole fraction) :
    ∀ c ∈ text.getLast?, c.isDigit = true := by
  intro c last
  cases decimal with
  | integer _ shape _ _ => exact shape c (List.mem_of_getLast? last)
  | pointed whole fraction _ _ _ places more =>
    rw [List.getLast?_append, List.getLast?_cons, Option.some_or,
      List.getLast?_eq_some_getLast more] at last
    exact places c (Option.some.inj last ▸ List.getLast_mem more)

theorem Decimal.trim {text whole fraction : List Char} (decimal : Decimal text whole fraction) :
    Text.trim text = text :=
  Text.trim_eq_self text (fun c first => digit_not_blank (decimal.first c first))
    fun c last => digit_not_blank (decimal.last c last)

theorem Decimal.trim_minus {text whole fraction : List Char}
    (decimal : Decimal text whole fraction) : Text.trim ('-' :: text) = '-' :: text := by
  refine Text.trim_eq_self _ (by simp [Text.isBlank]) fun c last => ?_
  rw [List.getLast?_cons] at last
  cases final : text.getLast? with
  | none =>
    rw [final] at last
    cases last
    decide
  | some d =>
    rw [final] at last
    cases last
    exact digit_not_blank (decimal.last d final)

theorem text_cons (n : Number) :
    ∃ c rest, n.text = c :: rest ∧ (c.isDigit = true ∨ c = '-') := by
  obtain ⟨whole, fraction, decimal, -⟩ := n.magnitudeText_decimal
  rw [text]
  split
  · exact ⟨'-', _, rfl, .inr rfl⟩
  · obtain ⟨c, rest, shape, digit⟩ := decimal.cons
    exact ⟨c, rest, shape, .inl digit⟩

theorem mem_text {n : Number} {c : Char} (inside : c ∈ n.text) :
    c.isDigit = true ∨ c = '.' ∨ c = '-' := by
  obtain ⟨whole, fraction, decimal, -⟩ := n.magnitudeText_decimal
  rw [text] at inside
  split at inside
  · rcases List.mem_cons.mp inside with rfl | inside
    · exact .inr (.inr rfl)
    · exact (decimal.mem c inside).imp_right .inl
  · exact (decimal.mem c inside).imp_right .inl

theorem denotes_text (n : Number) : Denotes n.text n.toRat := by
  obtain ⟨whole, fraction, decimal, value⟩ := n.magnitudeText_decimal
  obtain ⟨sign, signs, shape, trimmed⟩ : ∃ sign, Sign sign n.negative ∧
      n.text = sign ++ n.magnitudeText ∧ Text.trim n.text = n.text := by
    rw [text]
    cases n.negative with
    | false => exact ⟨[], .none, rfl, decimal.trim⟩
    | true => exact ⟨['-'], .minus, rfl, decimal.trim_minus⟩
  refine ⟨⟨n.negative, whole, fraction, 0⟩, ?_, ?_⟩
  · exact .parts sign n.magnitudeText [] (by rw [trimmed, shape, List.append_nil]) signs
      decimal.mantissa .none
  · rw [toRat, ← value]
    simp [Literal.value]

theorem text_injective : Function.Injective text := by
  intro n m same
  have denotes := n.denotes_text
  rw [same] at denotes
  exact toRat_injective (denotes_unique denotes m.denotes_text)

theorem parse_text {n : Number} (within : n.inRange = true) : parse n.text = .ok n :=
  (parse_eq_ok_iff _ _).mpr ⟨n.denotes_text, (inRange_iff n).mp within⟩

theorem parse_magnitudeText {n : Number} (within : n.inRange = true) (plain : n.negative = false) :
    parse n.magnitudeText = .ok n := by
  have read := parse_text within
  rwa [text, if_neg (by simp [plain])] at read

end TerraDoc.Number
