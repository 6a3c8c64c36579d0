import TerraDoc.Hcl.Cursor
import TerraDoc.Text.Letter

/-!
Names, number literals and the escapes of quoted strings, as the longest tokens at the head of a
text.
-/

namespace TerraDoc.Hcl

/-- What continues a name: characters of identifiers, dashes, and colons in pairs. -/
def nameTail : List Char → List Char × List Char
  | ':' :: ':' :: rest =>
      let (tail, rest) := nameTail rest
      (':' :: ':' :: tail, rest)
  | c :: rest =>
      if Text.continuesIdentifier c || c == '-' then
        let (tail, rest) := nameTail rest
        (c :: tail, rest)
      else ([], c :: rest)
  | [] => ([], [])

def name? : List Char → Option (List Char)
  | c :: rest =>
      if Text.startsIdentifier c || c == '_' then some (c :: (nameTail rest).1) else none
  | [] => none

def digitsOf? (text : List Char) : Option (List Char) :=
  match text.takeWhile Char.isDigit with
  | [] => none
  | digits => some digits

/-- The exponent at the head of a text, with its mark, or nothing. -/
def powerOf (text : List Char) : List Char :=
  match text with
  | mark :: rest =>
      if mark = 'e' || mark = 'E' then
        let sign := match rest with
          | '+' :: _ => ['+']
          | '-' :: _ => ['-']
          | _ => []
        match digitsOf? (rest.drop sign.length) with
        | some digits => mark :: sign ++ digits
        | none => []
      else []
  | [] => []

/-- The fraction at the head of a text, with its point and exponent, or nothing. -/
def fractionOf (text : List Char) : List Char :=
  match text with
  | '.' :: rest =>
      match digitsOf? rest with
      | some digits => '.' :: digits ++ powerOf (rest.drop digits.length)
      | none => []
  | _ => []

/-- The number literal at the head of a text: digits, which a fraction and then an exponent may
follow, or `0x` with letters and digits. -/
def number? (text : List Char) : Option (List Char) :=
  match text with
  | '0' :: 'x' :: rest =>
      match rest.takeWhile Char.isAlphanum with
      | [] => some ['0']
      | digits => some ('0' :: 'x' :: digits)
  | text => do
      let whole ← digitsOf? text
      return whole ++ fractionOf (text.drop whole.length)

def isHexDigit (c : Char) : Bool :=
  c.isDigit || ('a' ≤ c && c ≤ 'f') || ('A' ≤ c && c ≤ 'F')

/-- How many characters the escape after a backslash has. -/
def escapeLength? : List Char → Option Nat
  | 'n' :: _ | 'r' :: _ | 't' :: _ | '"' :: _ | '\\' :: _ => some 1
  | 'u' :: rest => if ((rest.take 4).filter isHexDigit).length = 4 then some 5 else none
  | 'U' :: rest => if ((rest.take 8).filter isHexDigit).length = 8 then some 9 else none
  | _ => none

namespace Reader

def name : Reader Slice := do
  let start ← mark
  match name? start.rest with
  | some characters => token .name characters.length
  | none => failure

/-- Whether a word comes next that is not just the beginning of a longer name. -/
def wordAhead (word : List Char) : Reader Bool := do
  return name? (← ahead) == some word

def word (word : List Char) : Reader Unit := do
  if (← name).text == word then return () else failure

end Reader

end TerraDoc.Hcl
