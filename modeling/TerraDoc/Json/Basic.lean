namespace TerraDoc

inductive Json where
  | null
  | bool (b : Bool)
  | number (literal : String)
  | string (text : String)
  /-- A string that spells an unpaired surrogate, so that it has no text; also the value of a
  member whose key does, under the empty key. -/
  | unpaired
  | array (items : List Json)
  | object (members : List (String × Json))
deriving Inhabited

namespace Json

def hexDigit (n : Nat) : Char :=
  Nat.digitChar n

/-- Quotes, backslashes and control characters are escaped, the last by their short form if they
have one. -/
def escape (c : Char) : List Char :=
  if c = '"' then ['\\', '"']
  else if c = '\\' then ['\\', '\\']
  else if c = '\n' then ['\\', 'n']
  else if c = '\r' then ['\\', 'r']
  else if c = '\t' then ['\\', 't']
  else if c = '\x08' then ['\\', 'b']
  else if c = '\x0c' then ['\\', 'f']
  else if c.toNat < 0x20 then
    ['\\', 'u', '0', '0', hexDigit (c.toNat / 16), hexDigit (c.toNat % 16)]
  else [c]

def quoted (text : String) : List Char :=
  '"' :: (text.toList.flatMap escape ++ ['"'])

mutual

def compact : Json → List Char
  | .null => "null".toList
  | .bool b => (if b then "true" else "false").toList
  | .number literal => literal.toList
  | .string text => quoted text
  | .unpaired => quoted ""
  | .array items => '[' :: (compactItems items ++ [']'])
  | .object members => '{' :: (compactMembers members ++ ['}'])

def compactItems : List Json → List Char
  | [] => []
  | [item] => item.compact
  | item :: rest => item.compact ++ ',' :: compactItems rest

def compactMembers : List (String × Json) → List Char
  | [] => []
  | [(key, value)] => quoted key ++ ':' :: value.compact
  | (key, value) :: rest => quoted key ++ ':' :: (value.compact ++ ',' :: compactMembers rest)

end

def newLine (level : Nat) : List Char :=
  '\n' :: List.replicate (2 * level) ' '

mutual

/-- One item or member a line; empty arrays and objects stay on theirs. -/
def prettyAt (level : Nat) : Json → List Char
  | .array [] => ['[', ']']
  | .array items => '[' :: (prettyItems (level + 1) items ++ newLine level ++ [']'])
  | .object [] => ['{', '}']
  | .object members => '{' :: (prettyMembers (level + 1) members ++ newLine level ++ ['}'])
  | .null => "null".toList
  | .bool b => (if b then "true" else "false").toList
  | .number literal => literal.toList
  | .string text => quoted text
  | .unpaired => quoted ""

def prettyItems (level : Nat) : List Json → List Char
  | [] => []
  | [item] => newLine level ++ item.prettyAt level
  | item :: rest => newLine level ++ item.prettyAt level ++ ',' :: prettyItems level rest

def prettyMembers (level : Nat) : List (String × Json) → List Char
  | [] => []
  | [(key, value)] => newLine level ++ quoted key ++ ':' :: ' ' :: value.prettyAt level
  | (key, value) :: rest =>
      newLine level ++ quoted key ++ ':' :: ' ' :: value.prettyAt level ++
        ',' :: prettyMembers level rest

end

def pretty (json : Json) : List Char :=
  prettyAt 0 json

end Json

end TerraDoc
