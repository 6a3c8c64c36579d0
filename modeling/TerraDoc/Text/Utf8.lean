/-!
Text as bytes. `decode` reads bytes one at a time; where they stop being UTF-8 the longest part
that could still have begun a character counts as one unreadable piece.
-/

namespace TerraDoc.Text.Utf8

def encode (text : List Char) : List UInt8 :=
  text.flatMap String.utf8EncodeChar

def byteLength (text : List Char) : Nat :=
  (encode text).length

/-- A character whose first bytes have been read: how many are owed, the range of the next one,
and the code point so far. -/
structure Pending where
  owed : Nat
  low : Nat
  high : Nat
  code : Nat
deriving DecidableEq, Repr

inductive Step where
  | complete (c : Char)
  | pending (p : Pending)
  | unreadable
deriving DecidableEq, Repr

def first (byte : Nat) : Step :=
  if byte < 0x80 then .complete (Char.ofNat byte)
  else if 0xC2 ≤ byte && byte ≤ 0xDF then .pending ⟨1, 0x80, 0xBF, byte - 0xC0⟩
  else if byte = 0xE0 then .pending ⟨2, 0xA0, 0xBF, 0⟩
  else if byte = 0xED then .pending ⟨2, 0x80, 0x9F, 0xD⟩
  else if 0xE1 ≤ byte && byte ≤ 0xEF then .pending ⟨2, 0x80, 0xBF, byte - 0xE0⟩
  else if byte = 0xF0 then .pending ⟨3, 0x90, 0xBF, 0⟩
  else if 0xF1 ≤ byte && byte ≤ 0xF3 then .pending ⟨3, 0x80, 0xBF, byte - 0xF0⟩
  else if byte = 0xF4 then .pending ⟨3, 0x80, 0x8F, 4⟩
  else .unreadable

def next (p : Pending) (byte : Nat) : Step :=
  if p.low ≤ byte && byte ≤ p.high then
    let code := p.code * 64 + (byte - 0x80)
    if p.owed ≤ 1 then .complete (Char.ofNat code) else .pending ⟨p.owed - 1, 0x80, 0xBF, code⟩
  else .unreadable

/-- Read on from between characters (`none`) or from inside one. -/
def decodeFrom : Option Pending → List UInt8 → List (Option Char)
  | none, [] => []
  | some _, [] => [none]
  | none, byte :: rest =>
      match first byte.toNat with
      | .complete c => some c :: decodeFrom none rest
      | .pending p => decodeFrom (some p) rest
      | .unreadable => none :: decodeFrom none rest
  | some p, byte :: rest =>
      match next p byte.toNat with
      | .complete c => some c :: decodeFrom none rest
      | .pending p => decodeFrom (some p) rest
      | .unreadable =>
          match first byte.toNat with
          | .complete c => none :: some c :: decodeFrom none rest
          | .pending p => none :: decodeFrom (some p) rest
          | .unreadable => none :: none :: decodeFrom none rest

/-- The characters of the bytes, with `none` for each unreadable piece. -/
def decode (bytes : List UInt8) : List (Option Char) :=
  decodeFrom none bytes

/-- The text of the bytes, if all of them are UTF-8. -/
def decode? (bytes : List UInt8) : Option (List Char) :=
  (decode bytes).mapM id

/-- The text of the bytes with a replacement character for each unreadable piece. -/
def decodeLossy (bytes : List UInt8) : List Char :=
  (decode bytes).map (·.getD '\ufffd')

end TerraDoc.Text.Utf8
