import TerraDoc.Text.Bytes

/-!
The ignore file that a git configuration names. The configuration is not read as such; the first
line that gives something of the right name a value counts, in whatever section it stands.
-/

namespace TerraDoc.Ignore

def isSpace (c : Char) : Bool :=
  c = ' ' || ('\t' ≤ c && c ≤ '\r')

/-- Whether only white space is left of a line. -/
def endsLine (text : List Char) : Bool :=
  (text.dropWhile isSpace).isEmpty || (text.takeWhile isSpace).contains '\n'

/-- Whether only white space is left of a line, and perhaps a quotation mark. -/
def endsValue (text : List Char) : Bool :=
  endsLine text || match text.dropWhile isSpace with
    | '"' :: rest => endsLine rest
    | _ => false

/-- The shortest text without white space after which a line can end. -/
def value? : List Char → Option (List Char)
  | [] => none
  | c :: rest =>
      if isSpace c then none
      else if endsValue rest then some [c]
      else (value? rest).map (c :: ·)

/-- The value that a text gives to `name`, if it starts with that. -/
def valueOf? (name text : List Char) : Option (List Char) :=
  let text := text.dropWhile isSpace
  if (text.take name.length).map Char.toLower ≠ name then none
  else match (text.drop name.length).dropWhile isSpace with
    | '=' :: value =>
        match value.dropWhile isSpace with
        | '"' :: quoted => value? (quoted.dropWhile isSpace) <|> value? ('"' :: quoted)
        | plain => value? plain
    | _ => none

def afterFeeds : List Char → List (List Char)
  | [] => []
  | c :: rest => if c = '\n' then rest :: afterFeeds rest else afterFeeds rest

/-- The path of the ignore file that a git configuration names. -/
def excludesFile? (configuration : List UInt8) : Option (List Char) := do
  let text := Text.ofBytes configuration
  let value ← (text :: afterFeeds text).findSome? (valueOf? "excludesfile".toList)
  Text.Utf8.decode? (Text.toBytes value)

end TerraDoc.Ignore
