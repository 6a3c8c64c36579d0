namespace TerraDoc

/-- The decimal `± coefficient · 10 ^ exponent`. A nonzero coefficient does not end in 0, and zero
has neither sign nor exponent. -/
structure Number where
  negative : Bool
  coefficient : Nat
  exponent : Int
  normal : (coefficient = 0 → negative = false ∧ exponent = 0) ∧
    (coefficient ≠ 0 → coefficient % 10 ≠ 0)
deriving DecidableEq

namespace Number

def zero : Number :=
  ⟨false, 0, 0, by simp⟩

instance : Inhabited Number := ⟨zero⟩

def isZero (n : Number) : Bool :=
  n.coefficient == 0

/-- Move the final zeros of a coefficient into the exponent. -/
def stripZeros (coefficient : Nat) (exponent : Int) : Nat × Int :=
  if coefficient = 0 then (0, 0)
  else if coefficient % 10 = 0 then stripZeros (coefficient / 10) (exponent + 1)
  else (coefficient, exponent)
termination_by coefficient

theorem stripZeros_normal (coefficient : Nat) (exponent : Int) :
    ((stripZeros coefficient exponent).1 = 0 → (stripZeros coefficient exponent).2 = 0) ∧
      ((stripZeros coefficient exponent).1 ≠ 0 → (stripZeros coefficient exponent).1 % 10 ≠ 0) := by
  fun_induction stripZeros coefficient exponent with
  | case1 => simp
  | case2 c e nonzero final inductionHypothesis => exact inductionHypothesis
  | case3 c e nonzero final => exact ⟨fun none => absurd none nonzero, fun _ => final⟩

/-- The number `± coefficient · 10 ^ exponent`, in normal form. -/
def ofScaled (negative : Bool) (coefficient : Nat) (exponent : Int) : Number :=
  let stripped := stripZeros coefficient exponent
  { negative := negative && stripped.1 != 0
    coefficient := stripped.1
    exponent := stripped.2
    normal := by
      have shape := stripZeros_normal coefficient exponent
      refine ⟨fun none => ⟨?_, shape.1 none⟩, shape.2⟩
      simp [show stripped.1 = 0 from none] }

def ofNat (n : Nat) : Number :=
  ofScaled false n 0

def ofInt (n : Int) : Number :=
  ofScaled (n < 0) n.natAbs 0

def negate (n : Number) : Number :=
  { n with
    negative := !n.negative && n.coefficient != 0
    normal := by
      refine ⟨fun none => ⟨?_, (n.normal.1 none).2⟩, n.normal.2⟩
      simp [none] }

def digits (n : Number) : List Char :=
  Nat.toDigits 10 n.coefficient

/-- The digits of the magnitude with its decimal point and without an exponent. -/
def magnitudeText (n : Number) : List Char :=
  match n.exponent with
  | .ofNat zeros => n.digits ++ List.replicate zeros '0'
  | .negSucc less =>
      let places := less + 1
      if places < n.digits.length then
        n.digits.take (n.digits.length - places) ++ '.' :: n.digits.drop (n.digits.length - places)
      else
        '0' :: '.' :: (List.replicate (places - n.digits.length) '0' ++ n.digits)

/-- Plain decimal notation: no exponent, and no zero that could be left out. -/
def text (n : Number) : List Char :=
  if n.negative then '-' :: n.magnitudeText else n.magnitudeText

def toString (n : Number) : String :=
  String.ofList n.text

theorem negate_negate (n : Number) : n.negate.negate = n := by
  rcases n with ⟨negative, coefficient, exponent, normal⟩
  simp only [negate, Number.mk.injEq, and_true]
  by_cases none : coefficient = 0
  · simp [none, (normal.1 none).1]
  · have kept : (coefficient != 0) = true := by simpa using none
    simp [kept]

end Number

end TerraDoc
