import TerraDoc.Hcl.Block

namespace TerraDoc.Hcl

/-- The character before a position of a source. -/
def before? (source : List Char) (position : Nat) : Option Char :=
  (source.take position).getLast?

/-- The text of a heredoc in its parts: the dash of an indented one, the marker, the line end after
it, the lines of the body, and what stands before the closing marker on its line. -/
structure HeredocParts where
  dash : List Char
  marker : List Char
  feed : List Char
  lines : List (List Char)
  indent : List Char
deriving DecidableEq, Repr

namespace HeredocParts

/-- The text from the first line of the body to the closing marker. -/
def body (parts : HeredocParts) : List Char :=
  parts.lines.flatMap (· ++ ['\n']) ++ (parts.indent ++ parts.marker)

def text (parts : HeredocParts) : List Char :=
  ['<', '<'] ++ (parts.dash ++ (parts.marker ++ (parts.feed ++ parts.body)))

/-- The marker stands directly between the opening signs and the end of the line, and no line of
the body consists of it and white space. -/
structure Regular (parts : HeredocParts) : Prop where
  dash : parts.dash = [] ∨ parts.dash = ['-']
  nonempty : parts.marker ≠ []
  marker : ∀ c ∈ parts.marker, Exponent.isMarkerChar c = true
  undashed : parts.dash = [] → parts.marker.head? ≠ some '-'
  feed : parts.feed = ['\n'] ∨ parts.feed = ['\r', '\n']
  whole : ∀ line ∈ parts.lines, '\n' ∉ line
  open_ : ∀ line ∈ parts.lines, Text.trim line ≠ parts.marker
  indent : ∀ c ∈ parts.indent, isBlank c = true ∧ c ≠ '\n'

end HeredocParts

/-- A sign that opens an interpolation or a directive before a brace. -/
def isTemplateSign (c : Char) : Bool :=
  c == '$' || c == '%'

/-- Every sign before a brace stands after the same sign. -/
def Doubled (text : List Char) : Prop :=
  ∀ before sign after, text = before ++ sign :: '{' :: after → isTemplateSign sign = true →
    before.getLast? = some sign

theorem Doubled.tail {c : Char} {text : List Char} (doubled : Doubled (c :: text))
    (single : ∀ rest, isTemplateSign c = true → text ≠ c :: '{' :: rest) : Doubled text := by
  intro before sign after split template
  have whole := doubled (c :: before) sign after (by rw [split]; rfl) template
  cases before with
  | nil =>
    obtain rfl : c = sign := by simpa using whole
    exact absurd split (single after template)
  | cons d before => simpa using whole

theorem Doubled.rest {c : Char} {text : List Char} (doubled : Doubled (c :: c :: '{' :: text)) :
    Doubled text := by
  intro before sign after split template
  have whole := doubled (c :: c :: '{' :: before) sign after (by rw [split]; rfl) template
  cases before with
  | nil =>
    obtain rfl : '{' = sign := by simpa using whole
    cases template
  | cons d before => simpa using whole

namespace Token

/-- What the normaliser takes for the same token as the grammar. Text in quotes has no line feed. An
opening sign is not doubled where a token opens, and is doubled in a label. An index follows its
point directly. Nothing that goes on with a hexadecimal number, a fraction or an index in the eyes
of the normaliser follows one. -/
def Regular (source : List Char) : Token → Prop
  | text slice => '\n' ∉ slice.text
  | labelText slice => '\n' ∉ slice.text ∧ Doubled slice.text
  | opening slice => before? source slice.start ≠ slice.text.head?
  | heredoc slice _ => before? source slice.start ≠ some '<' ∧
      ∃ parts : HeredocParts, parts.Regular ∧ slice.text = parts.text
  | index slice => before? source slice.start = some '.' ∧
      ∀ c ∈ (source.drop slice.stop).head?, Exponent.isMark c = false
  | number slice =>
      (['0', 'x'] <+: slice.text →
        ¬ ['-'] <+: source.drop slice.stop ∧ ¬ [':', ':'] <+: source.drop slice.stop) ∧
      ('.' ∈ slice.text → (∀ c ∈ slice.text, Exponent.isMark c = false) →
        ∀ c ∈ (source.drop slice.stop).head?, Exponent.isMark c = false)
  | comment _ | name _ | quoted _ | label _ => True

end Token

/-- A file whose tokens are all regular. -/
def File.Regular (file : File) : Prop :=
  ∀ token ∈ file.tokens, token.Regular file.source

end TerraDoc.Hcl
