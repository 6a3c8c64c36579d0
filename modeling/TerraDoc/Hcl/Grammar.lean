import TerraDoc.Hcl.Template

/-!
The grammar of configuration files. Every reader of a construct takes the reader of the
expressions inside it; `expression` closes the circle, with a bound on how deep they nest.
-/

namespace TerraDoc.Hcl

namespace Reader

/-- The rest of a list after its first element: elements after commas, up to a closing sign. A
comma may stand before it. -/
def listRest (bound : Nat) (expression : Reader Expr) (close : Char) : Reader (List Expr) :=
  Reading.repeated bound do
    if ← optional? [','] then
      match ← ahead with
      | c :: _ => if c = close then return none else return some (← expression)
      | [] => failure
    else return none

/-- The introduction of a repetition after the word `for`. -/
def forIntro (expression : Reader Expr) : Reader Expr := do
  word "for".toList
  names
  let collection ← expression
  symbol [':']
  return collection

def forCondition (expression : Reader Expr) : Reader (List Expr) := do
  if ← wordAhead "if".toList then
    word "if".toList
    return [← expression]
  else return []

/-- A tuple, or a repetition that makes one, from its bracket on. -/
def tuple (bound : Nat) (expression : Reader Expr) : Reader Expr := do
  let start ← get
  take 1
  if ← wordAhead "for".toList then
    let collection ← forIntro expression
    let item ← expression
    let condition ← forCondition expression
    symbol [']']
    return .compound (← sliceFrom start) .forTuple (collection :: item :: condition)
  else if ← optional? [']'] then return .tuple (← sliceFrom start) []
  else
    let first ← expression
    let others ← listRest bound expression ']'
    symbol [']']
    return .tuple (← sliceFrom start) (first :: others)

/-- One element of an object: a key, an equals sign or a colon, and a value. -/
def element (expression : Reader Expr) : Reader (Expr × Expr) := do
  let key ← expression
  if !(← optional? [':']) then symbol ['=']
  return (key, ← expression)

/-- The elements after the first. Commas between them may be left out. -/
def elementsRest (bound : Nat) (expression : Reader Expr) : Reader (List (Expr × Expr)) :=
  Reading.repeated bound do
    let _ ← optional? [',']
    match ← ahead with
    | '}' :: _ => return none
    | _ => return some (← element expression)

/-- An object, or a repetition that makes one, from its brace on. -/
def object (bound : Nat) (expression : Reader Expr) : Reader Expr := do
  let start ← get
  take 1
  if ← wordAhead "for".toList then
    let collection ← forIntro expression
    let key ← expression
    symbol ['=', '>']
    let value ← expression
    let _ ← optional? ['.', '.', '.']
    let condition ← forCondition expression
    symbol ['}']
    return .compound (← sliceFrom start) .forObject (collection :: key :: value :: condition)
  else if ← optional? ['}'] then return .object (← sliceFrom start) []
  else
    let first ← element expression
    let others ← elementsRest bound expression
    symbol ['}']
    return .object (← sliceFrom start) (first :: others)

/-- The arguments of a call, from its parenthesis on, and whether the last is expanded. -/
def arguments (bound : Nat) (expression : Reader Expr) : Reader (List Expr × Bool) := do
  symbol ['(']
  if ← optional? [')'] then return ([], false)
  let first ← expression
  let others ← listRest bound expression ')'
  let expanded ← optional? ['.', '.', '.']
  symbol [')']
  return (first :: others, expanded)

/-- What begins with a name: one of the three literal words, a call, or a reference. -/
def named (bound : Nat) (expression : Reader Expr) : Reader Expr := do
  let start ← mark
  let word ← name
  match word.string with
  | "true" => return .bool word true
  | "false" => return .bool word false
  | "null" => return .null word
  | _ =>
      match ← ahead with
      | '(' :: _ =>
          let (arguments, expanded) ← arguments bound expression
          return .call (← sliceFrom start) word arguments expanded
      | _ => return .reference word

def primary (bound : Nat) (expression : Reader Expr) : Reader Expr := do
  let start ← mark
  match start.rest with
  | '(' :: _ =>
      take 1
      let inner ← expression
      symbol [')']
      return .parens (← sliceFrom start) inner
  | '[' :: _ => tuple bound expression
  | '{' :: _ => object bound expression
  | '"' :: _ => quoted bound expression
  | '<' :: '<' :: _ => heredoc bound expression
  | text =>
      match number? text with
      | some literal =>
          let slice ← token .number literal.length
          return .number slice
      | none => named bound expression

/-- An operand with the signs before it, which bind tightest. -/
def operand (expression : Reader Expr) : Nat → Reader Expr
  | 0 => failure
  | bound + 1 => do
      let start ← mark
      match start.rest with
      | '-' :: _ =>
          take 1
          let inner ← operand expression bound
          return .unary (← sliceFrom start) .minus inner
      | '!' :: _ =>
          take 1
          let inner ← operand expression bound
          return .unary (← sliceFrom start) .not inner
      | _ => primary (bound + 1) expression

/-- The length of the binary operator at the head of a text. Two signs `<` open a heredoc, so one
of three is an operator with a heredoc after it. -/
def operatorLength? : List Char → Option Nat
  | '=' :: '=' :: _ | '!' :: '=' :: _ | '<' :: '=' :: _ | '>' :: '=' :: _
  | '&' :: '&' :: _ | '|' :: '|' :: _ => some 2
  | '<' :: '<' :: '<' :: _ => some 1
  | '<' :: '<' :: _ => none
  | '*' :: _ | '/' :: _ | '%' :: _ | '+' :: _ | '-' :: _ | '<' :: _ | '>' :: _ => some 1
  | _ => none

/-- What follows an operand: an attribute or index, a splat, or an operator with its operand. -/
def link (bound : Nat) (expression : Reader Expr) : Reader (Option (List Expr)) := do
  match ← ahead with
  | '.' :: '.' :: '.' :: _ => return none
  | '.' :: '*' :: _ =>
      symbol ['.', '*']
      return some []
  | '.' :: _ =>
      symbol ['.']
      match digitsOf? (← ahead) with
      | some digits =>
          skipGap
          let _ ← token .index digits.length
      | none =>
          let _ ← name
      return some []
  | '[' :: '*' :: ']' :: _ =>
      symbol ['[', '*', ']']
      return some []
  | '[' :: _ =>
      symbol ['[']
      let index ← expression
      symbol [']']
      return some [index]
  | text =>
      match operatorLength? text with
      | some length =>
          symbol (text.take length)
          return some [← operand expression bound]
      | none => return none

def term (bound : Nat) (expression : Reader Expr) : Reader Expr := do
  let start ← mark
  let first ← operand expression bound
  let links ← Reading.repeated bound (link bound expression)
  if links.isEmpty then return first
  else return .compound (← sliceFrom start) .operation (first :: links.flatten)

/-- An expression whose inner expressions are read by `inner`. -/
def expressionWith (bound : Nat) (inner : Reader Expr) : Reader Expr := do
  let start ← mark
  let first ← term bound inner
  if ← optional? ['?'] then
    let whenTrue ← inner
    symbol [':']
    let whenFalse ← inner
    return .compound (← sliceFrom start) .conditional [first, whenTrue, whenFalse]
  else return first

/-- Reads an expression. The bound is larger than the number of characters left. -/
def expression : Nat → Reader Expr
  | 0 => failure
  | bound + 1 => expressionWith bound (expression bound)

/-- The next label of a block; nothing at its brace. -/
def label (bound : Nat) : Reader (Option Label) := do
  let start ← mark
  match start.rest with
  | '{' :: _ => return none
  | '"' :: _ => return some (.quoted (← quotedLabel bound))
  | _ => return some (.name (← name))

/-- An attribute, or a block whose body is read by `inner`. -/
def item (bound : Nat) (inner : Reader (List Item)) : Reader Item := do
  let kind ← name
  if ← optional? ['='] then return .attr kind (← expression bound)
  else
    let labels ← Reading.repeated bound (label bound)
    symbol ['{']
    let body ← inner
    symbol ['}']
    return .block kind labels body

/-- Reads attributes and blocks up to a closing brace or the end of the source. -/
def body : Nat → Reader (List Item)
  | 0 => failure
  | bound + 1 => Reading.repeated bound do
      match ← ahead with
      | [] | '}' :: _ => return none
      | _ => return some (← item bound (body bound))

def content (bound : Nat) : Reader Content := do
  match ← ahead with
  | '{' :: _ =>
      let _ ← mark
      match ← object bound (expression bound) with
      | .object slice elements => return .object (.object slice elements)
      | _ => failure
  | _ => return .body (← body bound)

end Reader

/-- A source without a byte order mark at its start, and where it starts. -/
def origin (source : List Char) : Cursor :=
  match source with
  | '\ufeff' :: rest => ⟨1, rest, []⟩
  | rest => ⟨0, rest, []⟩

/-- Reads a source that needs no normalisation. A null character is not accepted anywhere. -/
def readFile? (source : List Char) : Option File := do
  if source.contains '\x00' then none
  else
    let (content, after) ← (Reader.content (source.length + 2)).run (origin source)
    let ((), after) ← Reader.skipGap.run after
    if after.rest.isEmpty then
      some ⟨source, content, after.tokens.reverse⟩
    else none

end TerraDoc.Hcl
