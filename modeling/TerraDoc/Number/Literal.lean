import TerraDoc.Number.Basic
import TerraDoc.Text.Blank
import TerraDoc.Text.Line

/-!
Reading decimal literals. A literal is an optional sign, digits with at most one point, and an
optional exponent; white space around it is ignored. Numbers that would need more than 4096
digits on either side of the point are refused.
-/

namespace TerraDoc

inductive NumberError where
  | malformed (literal : String)
  | outOfRange (coefficient : Nat) (exponent : Int)
  | notFinite (name : String)
deriving DecidableEq, Repr

def NumberError.message : NumberError → String
  | .malformed literal => "invalid number literal: " ++ literal
  | .outOfRange coefficient exponent =>
      "number out of range: " ++ String.ofList (Nat.toDigits 10 coefficient) ++ "e" ++
        (if exponent < 0 then "-" else "") ++ String.ofList (Nat.toDigits 10 exponent.natAbs)
  | .notFinite name => "non-finite number: " ++ name

namespace Number

/-- The parts of a literal; its value is `± whole.fraction · 10 ^ exponent`. -/
structure Literal where
  negative : Bool
  whole : List Char
  fraction : List Char
  exponent : Int
deriving DecidableEq, Repr

def readSign : List Char → Bool × List Char
  | '-' :: rest => (true, rest)
  | '+' :: rest => (false, rest)
  | rest => (false, rest)

def isExponentMark (c : Char) : Bool :=
  c == 'e' || c == 'E'

def readExponent (text : List Char) : Option Int :=
  let (negative, digits) := readSign text
  if digits.isEmpty || !digits.all Char.isDigit || 9 < digits.length then none
  else
    let magnitude : Int := Nat.ofDigitChars 10 digits 0
    some (if negative then -magnitude else magnitude)

/-- The digits before and after the point; one of the two may be missing. -/
def readMantissa (text : List Char) : Option (List Char × List Char) :=
  let (whole, fraction) := (Text.cut '.' text).getD (text, [])
  if whole.isEmpty && fraction.isEmpty then none
  else if (whole ++ fraction).all Char.isDigit then some (whole, fraction)
  else none

def readLiteral (text : List Char) : Option Literal := do
  let (negative, unsigned) := readSign (Text.trim text)
  let (whole, fraction) ← readMantissa (unsigned.takeWhile (!isExponentMark ·))
  let exponent ← match unsigned.dropWhile (!isExponentMark ·) with
    | [] => some 0
    | _ :: exponent => readExponent exponent
  return { negative, whole, fraction, exponent }

def Literal.coefficient (literal : Literal) : Nat :=
  Nat.ofDigitChars 10 (literal.whole ++ literal.fraction) 0

def Literal.scale (literal : Literal) : Int :=
  literal.exponent - literal.fraction.length

/-- The largest distance of a digit from the decimal point. -/
def range : Int := 4096

/-- Whether every digit of a number is within `range` of the point. -/
def inRange (n : Number) : Bool :=
  n.isZero || (n.exponent.natAbs ≤ range && n.exponent + n.digits.length ≤ range)

def ofLiteral (literal : Literal) : Except NumberError Number :=
  let number := ofScaled literal.negative literal.coefficient literal.scale
  if number.inRange then .ok number
  else .error (.outOfRange number.coefficient number.exponent)

/-- Read a number; white space around it is ignored. -/
def parse (text : List Char) : Except NumberError Number :=
  match readLiteral text with
  | some literal => ofLiteral literal
  | none => .error (.malformed (String.ofList text))

end Number

end TerraDoc
