import TerraDoc.Json.Basic

/-!
Reading JSON texts. `Json.parse` accepts a text exactly when it is one value with blanks around
it; how deep it nests and how large its numbers are is left to whoever uses the value.
-/

namespace TerraDoc.Json

def isBlank (c : Char) : Bool :=
  c == ' ' || c == '\t' || c == '\n' || c == '\r'

def skip (text : List Char) : List Char :=
  text.dropWhile isBlank

def hexValue? (c : Char) : Option Nat :=
  if c.isDigit then some (c.toNat - '0'.toNat)
  else if 'a' ≤ c && c ≤ 'f' then some (c.toNat - 'a'.toNat + 10)
  else if 'A' ≤ c && c ≤ 'F' then some (c.toNat - 'A'.toNat + 10)
  else none

def shortEscape? (c : Char) : Option Char :=
  match c with
  | '"' => some '"'
  | '\\' => some '\\'
  | '/' => some '/'
  | 'b' => some '\x08'
  | 'f' => some '\x0c'
  | 'n' => some '\n'
  | 'r' => some '\r'
  | 't' => some '\t'
  | _ => none

/-- The code units of a string after its opening quote: one for each character or escape. -/
def readUnits : List Char → Option (List Nat × List Char)
  | '"' :: rest => some ([], rest)
  | '\\' :: 'u' :: a :: b :: c :: d :: rest => do
      let unit := ((← hexValue? a) * 16 + (← hexValue? b)) * 256 +
        (← hexValue? c) * 16 + (← hexValue? d)
      let (units, rest) ← readUnits rest
      return (unit :: units, rest)
  | '\\' :: letter :: rest => do
      let c ← shortEscape? letter
      let (units, rest) ← readUnits rest
      return (c.toNat :: units, rest)
  | c :: rest => do
      if c.toNat < 0x20 || c = '\\' then none
      else
        let (units, rest) ← readUnits rest
        return (c.toNat :: units, rest)
  | [] => none

/-- The text of code units, unless a surrogate stands alone. -/
def textOfUnits : List Nat → Option (List Char)
  | [] => some []
  | [unit] => if 0xD800 ≤ unit && unit ≤ 0xDFFF then none else some [Char.ofNat unit]
  | high :: low :: rest =>
      if 0xD800 ≤ high && high ≤ 0xDBFF && 0xDC00 ≤ low && low ≤ 0xDFFF then
        (textOfUnits rest).map
          (Char.ofNat (0x10000 + (high - 0xD800) * 0x400 + (low - 0xDC00)) :: ·)
      else if 0xD800 ≤ high && high ≤ 0xDFFF then none
      else (textOfUnits (low :: rest)).map (Char.ofNat high :: ·)

/-- A string after its opening quote; `none` stands for one without a text. -/
def readString (text : List Char) : Option (Option String × List Char) := do
  let (units, rest) ← readUnits text
  return ((textOfUnits units).map String.ofList, rest)

def readDigits (text : List Char) : Option (List Char × List Char) :=
  match text.takeWhile Char.isDigit with
  | [] => none
  | digits => some (digits, text.dropWhile Char.isDigit)

def readWhole : List Char → Option (List Char × List Char)
  | '0' :: rest => some (['0'], rest)
  | text => readDigits text

def readFraction : List Char → Option (List Char × List Char)
  | '.' :: rest => (readDigits rest).map fun (digits, rest) => ('.' :: digits, rest)
  | text => some ([], text)

def readPower : List Char → Option (List Char × List Char)
  | [] => some ([], [])
  | mark :: rest =>
      if mark = 'e' || mark = 'E' then
        let (sign, rest) := match rest with
          | '+' :: rest => (['+'], rest)
          | '-' :: rest => (['-'], rest)
          | rest => ([], rest)
        (readDigits rest).map fun (digits, rest) => (mark :: sign ++ digits, rest)
      else some ([], mark :: rest)

def readNumber (text : List Char) : Option (Json × List Char) := do
  let (sign, text) := match text with
    | '-' :: rest => (['-'], rest)
    | text => ([], text)
  let (whole, text) ← readWhole text
  let (fraction, text) ← readFraction text
  let (power, text) ← readPower text
  return (.number (String.ofList (sign ++ whole ++ fraction ++ power)), text)

def member (key : Option String) (value : Json) : String × Json :=
  match key with
  | some key => (key, value)
  | none => ("", .unpaired)

mutual

/-- Reads one value. The bound is at least the number of characters left; every nested value and
every further item consumes one. -/
def readValue : Nat → List Char → Option (Json × List Char)
  | 0, _ => none
  | bound + 1, text =>
      match skip text with
      | 'n' :: 'u' :: 'l' :: 'l' :: rest => some (.null, rest)
      | 't' :: 'r' :: 'u' :: 'e' :: rest => some (.bool true, rest)
      | 'f' :: 'a' :: 'l' :: 's' :: 'e' :: rest => some (.bool false, rest)
      | '"' :: rest => do
          let (content, rest) ← readString rest
          return (content.elim .unpaired .string, rest)
      | '[' :: rest =>
          match skip rest with
          | ']' :: rest => some (.array [], rest)
          | rest => (readItems bound rest).map fun (items, rest) => (.array items, rest)
      | '{' :: rest =>
          match skip rest with
          | '}' :: rest => some (.object [], rest)
          | rest => (readMembers bound rest).map fun (members, rest) => (.object members, rest)
      | rest => readNumber rest

def readItems : Nat → List Char → Option (List Json × List Char)
  | 0, _ => none
  | bound + 1, text => do
      let (item, rest) ← readValue bound text
      match skip rest with
      | ',' :: rest =>
          let (items, rest) ← readItems bound rest
          return (item :: items, rest)
      | ']' :: rest => some ([item], rest)
      | _ => none

def readMembers : Nat → List Char → Option (List (String × Json) × List Char)
  | 0, _ => none
  | bound + 1, text =>
      match skip text with
      | '"' :: rest => do
          let (key, rest) ← readString rest
          match skip rest with
          | ':' :: rest =>
              let (value, rest) ← readValue bound rest
              match skip rest with
              | ',' :: rest =>
                  let (members, rest) ← readMembers bound rest
                  return (member key value :: members, rest)
              | '}' :: rest => some ([member key value], rest)
              | _ => none
          | _ => none
      | _ => none

end

def parse (text : List Char) : Option Json := do
  let (json, rest) ← readValue (text.length + 1) text
  if (skip rest).isEmpty then some json else none

end TerraDoc.Json
