import Mathlib.Algebra.Order.Field.Basic
import Mathlib.Data.Rat.Cast.Defs
import Mathlib.Tactic.Linarith
import Mathlib.Tactic.Ring
import TerraDoc.Number.Literal

namespace TerraDoc.Number

def signed (negative : Bool) (magnitude : ℚ) : ℚ :=
  if negative then -magnitude else magnitude

/-- The rational `± coefficient · 10 ^ exponent`. -/
def toRat (n : Number) : ℚ :=
  signed n.negative (n.coefficient * 10 ^ n.exponent)

@[simp] theorem signed_zero (negative : Bool) : signed negative 0 = 0 := by
  cases negative <;> simp [signed]

theorem signed_eq_zero_iff (negative : Bool) (magnitude : ℚ) :
    signed negative magnitude = 0 ↔ magnitude = 0 := by
  cases negative <;> simp [signed]

theorem abs_signed (negative : Bool) (magnitude : ℚ) :
    |signed negative magnitude| = |magnitude| := by
  cases negative <;> simp [signed]

theorem scaled_eq_zero_iff (coefficient : Nat) (exponent : Int) :
    (coefficient : ℚ) * 10 ^ exponent = 0 ↔ coefficient = 0 := by
  have scale : (10 : ℚ) ^ exponent ≠ 0 := zpow_ne_zero _ (by norm_num)
  simp [scale]

theorem scaled_nonneg (coefficient : Nat) (exponent : Int) :
    (0 : ℚ) ≤ coefficient * 10 ^ exponent :=
  mul_nonneg coefficient.cast_nonneg (zpow_nonneg (by norm_num) _)

theorem stripZeros_value (coefficient : Nat) (exponent : Int) :
    ((stripZeros coefficient exponent).1 : ℚ) * 10 ^ (stripZeros coefficient exponent).2 =
      coefficient * 10 ^ exponent := by
  fun_induction stripZeros coefficient exponent with
  | case1 => simp
  | case2 coefficient exponent nonzero final ih =>
    have split : coefficient = coefficient / 10 * 10 := by omega
    have cast : (coefficient : ℚ) = ((coefficient / 10 : Nat) : ℚ) * 10 := by
      exact_mod_cast split
    rw [ih, cast, zpow_add₀ (by norm_num)]
    ring
  | case3 => rfl

theorem toRat_ofScaled (negative : Bool) (coefficient : Nat) (exponent : Int) :
    (ofScaled negative coefficient exponent).toRat =
      signed negative (coefficient * 10 ^ exponent) := by
  rw [← stripZeros_value coefficient exponent]
  unfold toRat ofScaled
  by_cases zero : (stripZeros coefficient exponent).1 = 0
  · simp [zero]
  · have kept : ((stripZeros coefficient exponent).1 != 0) = true := by simpa using zero
    simp [kept]

theorem toRat_ofNat (n : Nat) : (ofNat n).toRat = n := by
  simp [ofNat, toRat_ofScaled, signed]

theorem toRat_ofInt (n : Int) : (ofInt n).toRat = n := by
  rw [ofInt, toRat_ofScaled]
  rcases lt_or_ge n 0 with below | above
  · have cast : ((n.natAbs : Int) : ℚ) = ((-n : Int) : ℚ) := by
      rw [show (n.natAbs : Int) = -n by omega]
    rw [Int.cast_natCast] at cast
    simp [signed, below, cast]
  · have cast : ((n.natAbs : Int) : ℚ) = (n : ℚ) := by
      rw [show (n.natAbs : Int) = n by omega]
    rw [Int.cast_natCast] at cast
    simp [signed, not_lt.mpr above, cast]

theorem toRat_negate (n : Number) : n.negate.toRat = -n.toRat := by
  obtain ⟨negative, coefficient, exponent, normal⟩ := n
  simp only [toRat, negate]
  by_cases zero : coefficient = 0
  · simp [zero]
  · have kept : (coefficient != 0) = true := by simpa using zero
    cases negative <;> simp [signed, kept]

/-- A positive rational is a coefficient without a final zero times a power of ten in at most one
way. -/
theorem scaled_injective {c d : Nat} {x y : Int} (finalC : c % 10 ≠ 0) (finalD : d % 10 ≠ 0)
    (same : (c : ℚ) * 10 ^ x = d * 10 ^ y) : c = d ∧ x = y := by
  wlog ordered : x ≤ y generalizing c d x y
  · obtain ⟨coefficients, exponents⟩ := this finalD finalC same.symm (by omega)
    exact ⟨coefficients.symm, exponents.symm⟩
  obtain ⟨k, rfl⟩ : ∃ k : Nat, y = x + k := ⟨(y - x).toNat, by omega⟩
  have scale : (10 : ℚ) ^ x ≠ 0 := zpow_ne_zero _ (by norm_num)
  have shifted : (c : ℚ) = ((d * 10 ^ k : Nat) : ℚ) := by
    rw [zpow_add₀ (by norm_num), zpow_natCast] at same
    apply mul_right_cancel₀ scale
    rw [same]
    push_cast
    ring
  have shifted : c = d * 10 ^ k := by exact_mod_cast shifted
  cases k with
  | zero => exact ⟨by simpa using shifted, by simp⟩
  | succ k =>
    have final : c % 10 = 0 := by rw [shifted, pow_succ, ← mul_assoc, Nat.mul_mod_left]
    exact absurd final finalC

theorem toRat_eq_zero_iff (n : Number) : n.toRat = 0 ↔ n = zero := by
  rw [toRat, signed_eq_zero_iff, scaled_eq_zero_iff]
  constructor
  · intro none
    obtain ⟨negative, coefficient, exponent, normal⟩ := n
    obtain ⟨sign, scale⟩ := normal.1 none
    simp_all [zero]
  · rintro rfl
    rfl

/-- Normal forms are unique. -/
theorem toRat_injective : Function.Injective toRat := by
  intro n m same
  by_cases zeroN : n.coefficient = 0
  · have valueN : n.toRat = 0 := by simp [toRat, zeroN]
    rw [(toRat_eq_zero_iff n).mp valueN, (toRat_eq_zero_iff m).mp (same ▸ valueN)]
  · have zeroM : m.coefficient ≠ 0 := by
      intro zeroM
      have valueN : n.toRat = 0 := by rw [same]; simp [toRat, zeroM]
      rw [toRat, signed_eq_zero_iff, scaled_eq_zero_iff] at valueN
      exact zeroN valueN
    have magnitudes : (n.coefficient : ℚ) * 10 ^ n.exponent = m.coefficient * 10 ^ m.exponent := by
      have absolute := congrArg abs same
      rwa [toRat, toRat, abs_signed, abs_signed, abs_of_nonneg (scaled_nonneg _ _),
        abs_of_nonneg (scaled_nonneg _ _)] at absolute
    obtain ⟨coefficients, exponents⟩ :=
      scaled_injective (n.normal.2 zeroN) (m.normal.2 zeroM) magnitudes
    have positive : (0 : ℚ) < m.coefficient * 10 ^ m.exponent := by
      apply lt_of_le_of_ne (scaled_nonneg _ _)
      exact fun none => zeroM ((scaled_eq_zero_iff _ _).mp none.symm)
    have signs : n.negative = m.negative := by
      rw [toRat, toRat, magnitudes] at same
      cases signN : n.negative <;> cases signM : m.negative <;>
        simp only [signN, signM, signed, Bool.false_eq_true, ↓reduceIte] at same ⊢ <;> linarith
    obtain ⟨negative, coefficient, exponent, normal⟩ := n
    obtain ⟨negative', coefficient', exponent', normal'⟩ := m
    simp_all

end TerraDoc.Number
