import TerraDoc.Hcl.Syntax
import TerraDoc.Reading
import TerraDoc.Text.Line

/-!
Reading a source from left to right. A reader either fails or goes on with less of the source;
blanks and comments are skipped before a token and never after it, so a slice ends with its last
token.
-/

namespace TerraDoc.Hcl

/-- A place in a source: its position, the characters from there on, and the tokens before it,
the last one first. -/
structure Cursor where
  position : Nat
  rest : List Char
  tokens : List Token
deriving Inhabited

abbrev Reader (α : Type) := Reading Cursor α

def isBlank (c : Char) : Bool :=
  c == ' ' || ('\t' ≤ c && c ≤ '\r')

/-- What lies between two tokens: blanks, or a comment with its start and what was read of it, the
last character first. -/
inductive Gap where
  | blank
  | line (start : Nat) (read : List Char)
  | block (start : Nat) (read : List Char)
deriving DecidableEq, Repr

/-- Skip blanks and comments. A block comment has to end; a line comment stops before the line
feed or at the end of the source. -/
def skipGapFrom : Gap → Nat → List Token → List Char → Option Cursor
  | .blank, p, tokens, '#' :: rest => skipGapFrom (.line p ['#']) (p + 1) tokens rest
  | .blank, p, tokens, '/' :: '/' :: rest =>
      skipGapFrom (.line p ['/', '/']) (p + 2) tokens rest
  | .blank, p, tokens, '/' :: '*' :: rest =>
      skipGapFrom (.block p ['*', '/']) (p + 2) tokens rest
  | .blank, p, tokens, c :: rest =>
      if isBlank c then skipGapFrom .blank (p + 1) tokens rest
      else some ⟨p, c :: rest, tokens⟩
  | .blank, p, tokens, [] => some ⟨p, [], tokens⟩
  | .line start read, p, tokens, [] => some ⟨p, [], .comment ⟨start, read.reverse⟩ :: tokens⟩
  | .line start read, p, tokens, c :: rest =>
      if c = '\n' then skipGapFrom .blank (p + 1) (.comment ⟨start, read.reverse⟩ :: tokens) rest
      else skipGapFrom (.line start (c :: read)) (p + 1) tokens rest
  | .block _ _, _, _, [] => none
  | .block start read, p, tokens, '*' :: '/' :: rest =>
      skipGapFrom .blank (p + 2)
        (.comment ⟨start, ('/' :: '*' :: read).reverse⟩ :: tokens) rest
  | .block start read, p, tokens, c :: rest =>
      skipGapFrom (.block start (c :: read)) (p + 1) tokens rest

namespace Reader

def skipGap : Reader Unit := fun c => do
  return ((), ← skipGapFrom .blank c.position c.tokens c.rest)

def take (count : Nat) : Reader Unit := fun c =>
  some ((), { c with position := c.position + count, rest := c.rest.drop count })

/-- Go past so many characters and keep them as a token. -/
def token (make : Slice → Token) (count : Nat) : Reader Slice := fun c =>
  let slice := ⟨c.position, c.rest.take count⟩
  some (slice, ⟨c.position + count, c.rest.drop count, make slice :: c.tokens⟩)

def keep (read : Token) : Reader Unit := fun c =>
  some ((), { c with tokens := read :: c.tokens })

/-- Read with the tokens kept apart, the first one first. -/
def apart {α : Type} (reader : Reader α) : Reader (α × List Token) := fun c => do
  let (a, there) ← reader { c with tokens := [] }
  return ((a, there.tokens.reverse), { there with tokens := c.tokens })

/-- Skip to the next token and say where it starts. -/
def mark : Reader Cursor := do
  skipGap
  get

/-- The characters from the next token on, without moving. -/
def ahead : Reader (List Char) := do
  let here ← get
  skipGap
  let there ← get
  set here
  return there.rest

def sliceFrom (origin : Cursor) : Reader Slice := do
  let here ← get
  return ⟨origin.position, origin.rest.take (here.position - origin.position)⟩

def symbol (token : List Char) : Reader Unit := do
  skipGap
  if token.isPrefixOf (← get).rest then take token.length else failure

/-- Go past a fixed token if it comes next. -/
def optional? (token : List Char) : Reader Bool := do
  if token.isPrefixOf (← ahead) then
    symbol token
    return true
  else return false

end Reader

end TerraDoc.Hcl
