import TerraDoc.Yaml.Scalar

namespace TerraDoc.Yaml

def isWord (c : Char) : Bool :=
  c.isAlphanum || c == '_' || c == '-'

/-- A handle: an exclamation mark, or two of them around a word. A word without its second mark is
read along. -/
def readHandle : List Char → Option (List Char × List Char)
  | '!' :: rest =>
      let word := rest.takeWhile isWord
      match rest.dropWhile isWord with
      | '!' :: after => some ('!' :: word ++ ['!'], after)
      | after => some ('!' :: word, after)
  | _ => none

/-- How many octets follow the first one of an encoded character. -/
def octetsAfter? (octet : Nat) : Option Nat :=
  if octet < 0x80 then some 0
  else if octet / 0x20 = 0x6 then some 1
  else if octet / 0x10 = 0xe then some 2
  else if octet / 0x8 = 0x1e then some 3
  else none

def isUriCharacter (verbatim : Bool) (c : Char) : Bool :=
  isWord c || ";/?:@&=+$.!~*'()".contains c || (verbatim && ",[]".contains c)

/-- Go past the longest piece of a URI. Of a character that is written in percent signs, `owed`
octets are still to come. -/
def afterUri? (verbatim : Bool) : (owed : Nat) → List Char → Option (List Char)
  | owed, '%' :: a :: b :: rest => do
      let octet := 16 * (← hexValue? a) + (← hexValue? b)
      match owed with
      | 0 => afterUri? verbatim (← octetsAfter? octet) rest
      | owed + 1 => if octet / 0x40 = 0x2 then afterUri? verbatim owed rest else none
  | owed, c :: rest =>
      if 0 < owed || c = '%' then none
      else if isUriCharacter verbatim c then afterUri? verbatim 0 rest
      else some (c :: rest)
  | owed, [] => if owed = 0 then some [] else none

/-- A tag: what its handle is, if it has one, and what follows it. -/
def readTag (text : List Char) : Option (Option (List Char) × List Char) :=
  match text with
  | '!' :: '<' :: uri => do
      let rest ← afterUri? true 0 uri
      match rest with
      | '>' :: after => if rest.length < uri.length then return (none, after) else none
      | _ => none
  | _ => do
      let (handle, suffix) ← readHandle text
      let after ← afterUri? false 0 suffix
      if 1 < handle.length && handle.getLast? = some '!' then
        if after.length < suffix.length then return (some handle, after) else none
      else if handle = ['!'] && after.length = suffix.length then return (none, after)
      else return (some ['!'], after)

def tagEnds (flow : Bool) (text : List Char) : Bool :=
  blankFollows text || (flow && text.head? = some ',')

inductive Directive where
  | version (major minor : Nat)
  /-- A handle is made known. -/
  | handle (name : List Char)
deriving DecidableEq, Repr

def readVersionNumber (text : List Char) : Option (Nat × List Char) :=
  let digits := text.takeWhile Char.isDigit
  if digits.isEmpty || 9 < digits.length then none
  else some (digits.foldl (fun n digit => 10 * n + (digit.toNat - '0'.toNat)) 0,
    text.dropWhile Char.isDigit)

/-- A directive after its percent sign, and the text after its line. -/
def readDirective (text : List Char) : Option (Directive × List Char) := do
  let rest := text.dropWhile isWord
  if !blankFollows rest then none
  else if text.takeWhile isWord = "YAML".toList then
    let (major, rest) ← readVersionNumber (rest.dropWhile isBlank)
    match rest with
    | '.' :: rest =>
        let (minor, rest) ← readVersionNumber rest
        return (.version major minor, ← afterLine? rest)
    | _ => none
  else if text.takeWhile isWord = "TAG".toList then
    let (name, rest) ← readHandle (rest.dropWhile isBlank)
    if name.getLast? ≠ some '!' || !rest.head?.any isBlank then none
    else
      let uri := rest.dropWhile isBlank
      let after ← afterUri? true 0 uri
      if after.length < uri.length && blankFollows after then
        return (.handle name, ← afterLine? after)
      else none
  else none

end TerraDoc.Yaml
