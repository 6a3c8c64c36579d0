import TerraDoc.Value.Basic
import TerraDoc.Json.Reader

/-!
The JSON form of a value: an object with its kind under `type` and its content under `value`, the
numbers as decimal text. Either member may come first; what follows from that is which parts of
the text are looked at before the kind is known.
-/

namespace TerraDoc.Value

mutual

def toJson : Value → Json
  | .str text => .object [("type", .string "str"), ("value", .string text)]
  | .num n => .object [("type", .string "num"), ("value", .string n.toString)]
  | .bool b => .object [("type", .string "bool"), ("value", .bool b)]
  | .seq items => .object [("type", .string "seq"), ("value", .array (itemsToJson items))]
  | .map entries => .object [("type", .string "map"), ("value", .object (entriesToJson entries))]

def itemsToJson : List Value → List Json
  | [] => []
  | item :: rest => item.toJson :: itemsToJson rest

def entriesToJson : List (String × Value) → List (String × Json)
  | [] => []
  | (key, value) :: rest => (key, value.toJson) :: entriesToJson rest

end

/-- Whether a number literal is too large for a double, that is, rounds to an infinity. -/
def overflows (literal : String) : Bool :=
  let text := literal.toList
  let isMark (c : Char) := c == 'e' || c == 'E'
  let mantissa := text.takeWhile (!isMark ·)
  let (sign, power) := Number.readSign ((text.dropWhile (!isMark ·)).drop 1)
  let places := ((mantissa.dropWhile (· != '.')).drop 1).length
  let coefficient := Nat.ofDigitChars 10 (mantissa.filter Char.isDigit) 0
  let exponent : Int := Nat.ofDigitChars 10 power 0
  let scale := (if sign then -exponent else exponent) - places
  let width : Int := (Nat.toDigits 10 coefficient).length
  if coefficient = 0 || width + scale < 309 then false
  else if 309 < width + scale then true
  else (Nat.pow 2 1024 - Nat.pow 2 970) * Nat.pow 10 (-scale).toNat ≤
    coefficient * Nat.pow 10 scale.toNat

mutual

/-- Whether a part that is kept until its kind is known can be kept: it nests at most `levels`
deep, its strings have a text and its numbers fit a double. -/
def keepable (levels : Nat) : Json → Bool
  | .unpaired => false
  | .number literal => !overflows literal
  | .array items => 0 < levels && keepableItems (levels - 1) items
  | .object members => 0 < levels && keepableMembers (levels - 1) members
  | _ => true

def keepableItems (levels : Nat) : List Json → Bool
  | [] => true
  | item :: rest => keepable levels item && keepableItems levels rest

def keepableMembers (levels : Nat) : List (String × Json) → Bool
  | [] => true
  | (_, value) :: rest => keepable levels value && keepableMembers levels rest

end

/-- How a part of the text is read: as it comes, at most so many levels deep, or after it was kept
as a whole. -/
inductive Reading where
  | direct (levels : Nat)
  | kept

namespace Reading

/-- Reading what is inside an array or an object. -/
def inside? : Reading → Option Reading
  | .direct 0 => none
  | .direct (levels + 1) => some (.direct levels)
  | .kept => some .kept

/-- Reading a part that stands before the kind it belongs to. -/
def keep? (json : Json) : Reading → Option Reading
  | .direct levels => if keepable levels json then some .kept else none
  | .kept => some .kept

end Reading

/-- The name of a kind: a string, or an object whose only member has that key and no content. -/
def kindName? (reading : Reading) : Json → Option String
  | .string name => some name
  | .object [(name, .null)] => some name
  | .object [(name, .object [])] =>
      match reading with
      | .kept => some name
      | .direct _ => none
  | _ => none

def hasUnpairedKey (members : List (String × Json)) : Bool :=
  members.any fun | ("", .unpaired) => true | _ => false

/-- The kind and the content of a tagged value, and how the content is read. A pair may also be
written as an array. -/
def tagged? (reading : Reading) : Json → Option (String × Json × Reading)
  | .array [kind, content] => do
      let reading ← reading.inside?
      return (← kindName? reading kind, content, reading)
  | .object members => do
      let reading ← reading.inside?
      if hasUnpairedKey members then none
      else
        match members.filter fun (key, _) => key == "type" || key == "value" with
        | [("type", kind), ("value", content)] =>
            return (← kindName? reading kind, content, reading)
        | [("value", content), ("type", kind)] =>
            return (← kindName? reading kind, content, ← reading.keep? content)
        | _ => none
  | _ => none

/-- The value of a kind with some content, its parts read by `read`. -/
def ofContent? (read : Reading → Json → Option Value) (reading : Reading) :
    String → Json → Option Value
  | "str", .string text => some (.str text)
  | "num", .string text => (Number.parse text.toList).toOption.map .num
  | "bool", .bool b => some (.bool b)
  | "seq", .array items => do
      let reading ← reading.inside?
      return .seq (← items.mapM (read reading))
  | "map", .object members => do
      let reading ← reading.inside?
      if hasUnpairedKey members then none
      else
        let entries ← members.mapM fun (key, value) => return (key, ← read reading value)
        return .map (Dictionary.ofList entries)
  | _, _ => none

/-- Reads the JSON form of a value. The bound is at least the depth of the tree. -/
def ofJsonAt : Nat → Reading → Json → Option Value
  | 0, _, _ => none
  | bound + 1, reading, json => do
      let (kind, content, reading) ← tagged? reading json
      ofContent? (ofJsonAt bound) reading kind content

mutual

def depth : Json → Nat
  | .array items => depthOfItems items + 1
  | .object members => depthOfMembers members + 1
  | _ => 0

def depthOfItems : List Json → Nat
  | [] => 0
  | item :: rest => max (depth item) (depthOfItems rest)

def depthOfMembers : List (String × Json) → Nat
  | [] => 0
  | (_, value) :: rest => max (depth value) (depthOfMembers rest)

end

def maxLevels : Nat := 127

def ofJson? (json : Json) : Option Value :=
  ofJsonAt (depth json + 1) (.direct maxLevels) json

def parseJson? (text : List Char) : Option Value := do
  ofJson? (← Json.parse text)

end TerraDoc.Value
