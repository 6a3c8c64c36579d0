import TerraDoc.Number.Literal

/-!
Binary floating-point numbers of 64 bits as decimals. The decimal of a finite one is the shortest
that reads back as it, and of the shortest the nearest; a tie goes up.
-/

namespace TerraDoc.Binary64

/-- What 64 bits stand for: `± significand · 2 ^ power`, an infinity, or no number. -/
inductive Datum where
  | finite (negative : Bool) (significand : Nat) (power : Int)
  | infinite (negative : Bool)
  | notNumber
deriving DecidableEq, Repr

def decode (bits : Nat) : Datum :=
  let negative := bits / Nat.pow 2 63 % 2 = 1
  let field : Nat := bits / Nat.pow 2 52 % Nat.pow 2 11
  let fraction : Nat := bits % Nat.pow 2 52
  if field = Nat.pow 2 11 - 1 then
    if fraction = 0 then .infinite negative else .notNumber
  else if field = 0 then .finite negative fraction (-1074)
  else .finite negative (Nat.pow 2 52 + fraction) ((field : Int) - 1075)

/-- The reals that round to a value, as multiples of `2 ^ power`; the ends belong to them when
`closed`. -/
structure Interval where
  low : Nat
  value : Nat
  high : Nat
  power : Int
  closed : Bool
deriving DecidableEq, Repr

/-- The neighbour below a power of two is only half as far away as the one above. -/
def interval (significand : Nat) (power : Int) : Interval :=
  let narrow := significand = Nat.pow 2 52 && -1074 < power
  { low := 4 * significand - (if narrow then 1 else 2)
    value := 4 * significand
    high := 4 * significand + 2
    power := power - 2
    closed := significand % 2 = 0 }

/-- Whether `multiple · 10 ^ grid` lies in the interval, with both sides brought to integers. -/
def Interval.holds (i : Interval) (grid : Int) (multiple : Nat) : Bool :=
  let binary := Nat.pow 2 i.power.toNat * Nat.pow 10 (-grid).toNat
  let decimal := multiple * (Nat.pow 2 (-i.power).toNat * Nat.pow 10 grid.toNat)
  if i.closed then i.low * binary ≤ decimal && decimal ≤ i.high * binary
  else i.low * binary < decimal && decimal < i.high * binary

/-- The multiple of `10 ^ grid` in the interval that is nearest to the value, if any is in it. -/
def Interval.onGrid (i : Interval) (grid : Int) : Option Nat :=
  let numerator := i.value * (Nat.pow 2 i.power.toNat * Nat.pow 10 (-grid).toNat)
  let denominator := Nat.pow 2 (-i.power).toNat * Nat.pow 10 grid.toNat
  let below := numerator / denominator
  match i.holds grid below, i.holds grid (below + 1) with
  | true, true =>
      some (if 2 * (numerator % denominator) < denominator then below else below + 1)
  | true, false => some below
  | false, true => some (below + 1)
  | false, false => none

/-- The first grid with a hit, from coarse to fine. -/
def Interval.shortestFrom (i : Interval) (grid : Int) : Nat → Option (Nat × Int)
  | 0 => none
  | finer + 1 =>
      match i.onGrid grid with
      | some multiple => some (multiple, grid)
      | none => i.shortestFrom (grid - 1) finer

/-- The shortest decimal, as digits and exponent. Every double has one between `10 ^ 309` and
`10 ^ -1074`. -/
def Interval.shortest (i : Interval) : Nat × Int :=
  (i.shortestFrom 309 1384).getD (0, 0)

def toNumber (bits : Nat) : Except NumberError Number :=
  match decode bits with
  | .notNumber => .error (.notFinite "NaN")
  | .infinite negative => .error (.notFinite (if negative then "-inf" else "inf"))
  | .finite negative significand power =>
      if significand = 0 then .ok .zero
      else
        let (digits, exponent) := (interval significand power).shortest
        .ok (.ofScaled negative digits exponent)

end TerraDoc.Binary64
