import Mathlib.Tactic.GCongr
import TerraDoc.Proofs.NumberLiteral

/-!
The numbers that literals, machine integers and negation build. All of them are written in one
canonical form and lie within range, so they can be compared part by part.
-/

namespace TerraDoc.Number

/-- The numbers that are ever built. -/
inductive Built : Number → Prop where
  | parsed (text : List Char) (n : Number) (read : parse text = .ok n) : Built n
  | signed (i : Int64) : Built (ofInt i.toInt)
  | unsigned (i : UInt64) : Built (ofNat i.toNat)
  | negated (n : Number) (built : Built n) : Built n.negate

/-- No digit of a number could be left out, and zero has one form. -/
structure Canonical (n : Number) : Prop where
  first : n.digits.head? = some '0' → n.digits = ['0']
  last : n.digits.getLast? = some '0' → n.digits = ['0']
  zero : n.digits = ['0'] → n.negative = false ∧ n.exponent = 0

theorem digitChar_eq_zero_iff {d : Nat} (digit : d < 10) : d.digitChar = '0' ↔ d = 0 := by
  interval_cases d <;> decide

theorem head?_toDigits {c : Nat} (nonzero : c ≠ 0) : (Nat.toDigits 10 c).head? ≠ some '0' := by
  induction c using Nat.strongRecOn with
  | ind c ih =>
    rw [Nat.toDigits_eq_if (by decide)]
    split
    · rename_i digit
      simpa [digitChar_eq_zero_iff digit] using nonzero
    · have front := ih (c / 10) (by omega) (by omega)
      rw [List.head?_append, List.head?_eq_some_head Nat.toDigits_ne_nil] at *
      exact front

theorem getLast?_toDigits {c : Nat} (final : c % 10 ≠ 0) :
    (Nat.toDigits 10 c).getLast? ≠ some '0' := by
  rw [Nat.toDigits_eq_if (by decide)]
  split
  · rename_i digit
    rw [Nat.mod_eq_of_lt digit] at final
    simpa [digitChar_eq_zero_iff digit] using final
  · simpa [digitChar_eq_zero_iff (Nat.mod_lt c (by decide))] using final

theorem canonical (n : Number) : n.Canonical := by
  by_cases none : n.coefficient = 0
  · have zero : n.digits = ['0'] := by simp [digits, none]
    exact ⟨fun _ => zero, fun _ => zero, fun _ => n.normal.1 none⟩
  · refine ⟨fun first => absurd first (head?_toDigits none),
      fun last => absurd last (getLast?_toDigits (n.normal.2 none)), fun zero => ?_⟩
    exact absurd (congrArg List.head? zero) (head?_toDigits none)

/-- An integer of few digits is within range. -/
theorem inRange_of_integer {n : Number} {m k : Nat} (value : |n.toRat| = m) (below : m < 10 ^ k)
    (few : k ≤ 4096) : n.inRange = true := by
  rw [inRange_iff]
  by_cases none : n.coefficient = 0
  · exact .inl (by simp [toRat, none])
  have final := n.normal.2 none
  have magnitude : (n.coefficient : ℚ) * 10 ^ n.exponent = m := by
    rw [← value, toRat, abs_signed, abs_of_nonneg (scaled_nonneg _ _)]
  obtain ⟨x, exponent | exponent⟩ := n.exponent.eq_nat_or_neg
  · have product : n.coefficient * 10 ^ x = m := by
      rw [exponent, zpow_natCast] at magnitude
      exact_mod_cast magnitude
    have scale : 10 ^ x < 10 ^ k := by
      refine lt_of_le_of_lt ?_ below
      rw [← product]
      exact Nat.le_mul_of_pos_left _ (Nat.pos_of_ne_zero none)
    have shorter : x < k := (Nat.pow_lt_pow_iff_right (by decide)).mp scale
    have digits : (Nat.toDigits 10 n.coefficient).length ≤ k - x := by
      rw [Nat.length_toDigits_le_iff (by decide) (by omega)]
      apply Nat.lt_of_mul_lt_mul_right (a := 10 ^ x)
      rw [product, ← pow_add, Nat.sub_add_cancel shorter.le]
      exact below
    refine .inr ⟨n.coefficient, n.exponent, ?_, by omega, ?_, by omega⟩
    · rw [value, magnitude]
    · rw [exponent, Nat.abs_cast]
      omega
  · have scale : (10 : ℚ) ^ x ≠ 0 := pow_ne_zero _ (by norm_num)
    have product : n.coefficient = m * 10 ^ x := by
      rw [exponent, zpow_neg, zpow_natCast, ← div_eq_mul_inv, div_eq_iff scale] at magnitude
      exact_mod_cast magnitude
    cases x with
    | zero =>
      have digits : (Nat.toDigits 10 n.coefficient).length ≤ 4096 := by
        rw [Nat.length_toDigits_le_iff (by decide) (by decide), product]
        calc m * 10 ^ 0 = m := by simp
          _ < 10 ^ k := below
          _ ≤ 10 ^ 4096 := Nat.pow_le_pow_right (by decide) few
      refine .inr ⟨n.coefficient, n.exponent, ?_, by omega, ?_, by omega⟩
      · rw [value, magnitude]
      · simp [exponent]
    | succ x => exact absurd (by rw [product, pow_succ, ← mul_assoc, Nat.mul_mod_left]) final

theorem Built.inRange {n : Number} (built : Built n) : n.inRange = true := by
  induction built with
  | parsed text n read => exact (inRange_iff n).mpr ((parse_eq_ok_iff text n).mp read).2
  | signed i =>
    have lower := i.le_toInt
    have upper := i.toInt_lt
    refine inRange_of_integer (m := i.toInt.natAbs) (k := 20) ?_ (by omega) (by decide)
    rw [toRat_ofInt, Nat.cast_natAbs, Int.cast_abs]
  | unsigned i =>
    have upper := i.toNat_lt
    refine inRange_of_integer (m := i.toNat) (k := 20) ?_ (by omega) (by decide)
    rw [toRat_ofNat, Nat.abs_cast]
  | negated n built ih =>
    rw [inRange_iff] at ih ⊢
    rwa [WithinRange, toRat_negate, abs_neg, neg_eq_zero]

theorem denotes_unique {text : List Char} {q r : ℚ} (one : Denotes text q)
    (other : Denotes text r) : q = r := by
  obtain ⟨literal, spells, rfl⟩ := one
  obtain ⟨literal', spells', rfl⟩ := other
  rw [← readLiteral_eq_some_iff] at spells spells'
  rw [Option.some.inj (spells.symm.trans spells')]

theorem parse_of_denotes {text : List Char} {q : ℚ} (denotes : Denotes text q)
    (within : WithinRange q) : ∃ n, parse text = .ok n ∧ n.toRat = q := by
  obtain ⟨literal, spells, value⟩ := denotes
  have number := (toRat_ofLiteral literal).trans value
  refine ⟨_, (parse_eq_ok_iff text _).mpr ⟨⟨literal, spells, (toRat_ofLiteral literal).symm⟩, ?_⟩,
    number⟩
  rwa [number]

/-- Numbers are exact: a text is read just when it denotes a rational within range, and as that
rational; every number that is built is canonical and within range; integers and opposites have
their value; and numbers are equal just when their rationals are. -/
theorem numbers_exact :
    (∀ text, (∃ n, parse text = .ok n) ↔ ∃ q, Denotes text q ∧ WithinRange q) ∧
    (∀ text n q, parse text = .ok n → Denotes text q → n.toRat = q) ∧
    (∀ n, Built n → n.Canonical ∧ n.inRange = true) ∧
    (∀ i : Int, (ofInt i).toRat = i) ∧ (∀ i : Nat, (ofNat i).toRat = i) ∧
    (∀ n : Number, n.negate.toRat = -n.toRat) ∧
    (∀ n m : Number, (n == m) = true ↔ n.toRat = m.toRat) := by
  refine ⟨fun text => ⟨?_, ?_⟩, ?_, fun n built => ⟨n.canonical, built.inRange⟩, toRat_ofInt,
    toRat_ofNat, toRat_negate, fun n m => ?_⟩
  · rintro ⟨n, read⟩
    exact ⟨n.toRat, (parse_eq_ok_iff text n).mp read⟩
  · rintro ⟨q, denotes, within⟩
    obtain ⟨n, read, -⟩ := parse_of_denotes denotes within
    exact ⟨n, read⟩
  · intro text n q read denotes
    exact denotes_unique ((parse_eq_ok_iff text n).mp read).1 denotes
  · rw [beq_iff_eq, toRat_injective.eq_iff]

private theorem denotes_three_halves : Denotes [' ', '1', '5', 'e', '-', '1'] (3 / 2) := by
  refine ⟨⟨false, ['1', '5'], [], -1⟩,
    .parts [] ['1', '5'] ['e', '-', '1'] (by decide) .none
      (.integer _ (by simp [Digits]) (by simp)) ?_, ?_⟩
  · exact .marked 'e' ['-', '1'] (-1) (.inl rfl)
      (.signed ['-'] ['1'] true .minus (by simp [Digits]) (by simp) (by decide))
  · have fifteen : digitsValue ['1', '5'] = 15 := by decide
    norm_num [Literal.value, Number.signed, fifteen]

private theorem withinRange_three_halves : WithinRange (3 / 2) :=
  .inr ⟨15, -1, by norm_num [abs_of_pos], by decide, by decide, by decide⟩

/-- The literal `15e-1` after a blank is read as three halves, in canonical form. -/
theorem numbers_exact_three_halves :
    ∃ n, parse [' ', '1', '5', 'e', '-', '1'] = .ok n ∧ n.toRat = 3 / 2 ∧
      n.Canonical ∧ n.inRange = true := by
  obtain ⟨n, read⟩ := (numbers_exact.1 _).mpr
    ⟨3 / 2, denotes_three_halves, withinRange_three_halves⟩
  have built := numbers_exact.2.2.1 n (.parsed _ n read)
  exact ⟨n, read, numbers_exact.2.1 _ n _ read denotes_three_halves, built.1, built.2⟩

end TerraDoc.Number
