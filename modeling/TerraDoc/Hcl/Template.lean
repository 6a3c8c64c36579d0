import TerraDoc.Hcl.Token

/-!
Quoted strings and heredocs. Both hold plain text, interpolations and directives; directives come
as tags that have to match, `for` with `endfor` and `if` with `endif`.
-/

namespace TerraDoc.Hcl

/-- The word of a directive. -/
inductive Tag where
  | for_
  | endFor
  | if_
  | else_
  | endIf
deriving DecidableEq, Repr

/-- What a template holds besides plain text, with the expressions in it. -/
inductive Part where
  | interpolation (inside : List Expr)
  | directive (tag : Tag) (inside : List Expr)
deriving Inhabited

def Part.inside : Part → List Expr
  | .interpolation inside => inside
  | .directive _ inside => inside

/-- Whether the directives match when some are still open, the innermost first. -/
def balancedFrom : List Tag → List Part → Bool
  | opened, [] => opened.isEmpty
  | opened, .interpolation _ :: rest => balancedFrom opened rest
  | opened, .directive tag _ :: rest =>
      match tag, opened with
      | .for_, opened => balancedFrom (.for_ :: opened) rest
      | .if_, opened => balancedFrom (.if_ :: opened) rest
      | .else_, .if_ :: opened => balancedFrom (.else_ :: opened) rest
      | .endFor, .for_ :: opened => balancedFrom opened rest
      | .endIf, .if_ :: opened => balancedFrom opened rest
      | .endIf, .else_ :: opened => balancedFrom opened rest
      | _, _ => false

def balanced (parts : List Part) : Bool :=
  balancedFrom [] parts

namespace Reader

/-- Whether the brace that ends an interpolation or a directive comes next. -/
def closingAhead : Reader Bool := do
  match ← ahead with
  | '}' :: _ | '~' :: _ => return true
  | _ => return false

def closing : Reader Unit := do
  let _ ← optional? ['~']
  symbol ['}']

/-- An interpolation after its opening brace. It may be empty. -/
def interpolation (expression : Reader Expr) : Reader Part := do
  let _ ← optional? ['~']
  if ← closingAhead then
    closing
    return .interpolation []
  else
    let inside ← expression
    closing
    return .interpolation [inside]

/-- The one or two names that a repetition introduces, up to its collection. -/
def names : Reader Unit := do
  let _ ← name
  if ← optional? [','] then
    let _ ← name
  word "in".toList

def directive (expression : Reader Expr) : Reader Part := do
  let _ ← optional? ['~']
  let tag ← name
  let part ← match tag.string with
    | "for" => do
        names
        pure (Part.directive .for_ [← expression])
    | "if" => pure (Part.directive .if_ [← expression])
    | "else" => pure (Part.directive .else_ [])
    | "endif" => pure (Part.directive .endIf [])
    | "endfor" => pure (Part.directive .endFor [])
    | _ => failure
  closing
  return part

/-- What begins with a dollar or percent sign: an interpolation, a directive, or plain text. A
doubled sign is plain, and so is a brace after it. -/
def signed (expression : Reader Expr) (sign : Char) (after : List Char) :
    Reader (List Part) := do
  match after with
  | '{' :: _ =>
      let _ ← token .opening 2
      if sign = '$' then return [← interpolation expression] else return [← directive expression]
  | c :: '{' :: _ =>
      let _ ← token .text (if c = sign then 3 else 1)
      return []
  | c :: _ =>
      let _ ← token .text (if c = sign then 2 else 1)
      return []
  | [] =>
      let _ ← token .text 1
      return []

def isPlain (c : Char) : Bool :=
  c != '"' && c != '$' && c != '%' && c != '\\'

/-- The next stretch of a quoted string; nothing at its closing quote. -/
def quotedPart (expression : Reader Expr) : Reader (Option (List Part)) := do
  match (← get).rest with
  | '"' :: _ => return none
  | '$' :: after => return some (← signed expression '$' after)
  | '%' :: after => return some (← signed expression '%' after)
  | '\\' :: after =>
      match escapeLength? after with
      | some length =>
          let _ ← token .text (length + 1)
          return some []
      | none => failure
  | c :: rest =>
      let _ ← token .text ((c :: rest).takeWhile isPlain).length
      return some []
  | [] => failure

def quoted (bound : Nat) (expression : Reader Expr) : Reader Expr := do
  let start ← get
  take 1
  let parts := (← Reading.repeated bound (quotedPart expression)).flatten
  take 1
  let slice ← sliceFrom start
  if parts.isEmpty then
    keep (.quoted slice)
    return .quoted slice
  else if balanced parts then return .quotedTemplate slice (parts.flatMap Part.inside)
  else failure

/-- The next stretch of a quoted label, in which only backslashes mean something. -/
def labelPart : Reader (Option Unit) := do
  match (← get).rest with
  | '"' :: _ => return none
  | '\\' :: after =>
      match escapeLength? after with
      | some length =>
          let _ ← token .labelText (length + 1)
          return some ()
      | none => failure
  | c :: rest =>
      let _ ← token .labelText ((c :: rest).takeWhile fun c => c != '"' && c != '\\').length
      return some ()
  | [] => failure

def quotedLabel (bound : Nat) : Reader Slice := do
  let start ← get
  take 1
  let _ ← Reading.repeated bound labelPart
  take 1
  let slice ← sliceFrom start
  keep (.label slice)
  return slice

def isMarkerChar (c : Char) : Bool :=
  c.isAlphanum || c == '_' || c == '-'

/-- How many characters two texts have in common at their start. -/
def sharedLength : List Char → List Char → Nat
  | a :: as, b :: bs => if a = b then sharedLength as bs + 1 else 0
  | _, _ => 0

/-- The next stretch of a heredoc's body; nothing at the marker that closes it, which stands at the
start of a line and has only blanks between it and the line feed. A line that goes on after the
marker is text up to the first character that goes on. -/
def heredocPart (marker : List Char) (expression : Reader Expr) :
    Reader (Option (List Part)) := do
  let rest := (← get).rest
  let blanks := (rest.takeWhile isBlank).length
  match rest.dropWhile isBlank with
  | [] => failure
  | '$' :: after =>
      take blanks
      return some (← signed expression '$' after)
  | '%' :: after =>
      take blanks
      return some (← signed expression '%' after)
  | text =>
      if (rest.takeWhile isBlank).contains '\n' then
        let shared := sharedLength marker text
        if shared < marker.length then
          take (blanks + shared)
          return some []
        else
          let line := text.drop shared
          let spaces := (line.takeWhile fun c => isBlank c && c != '\n').length
          match line.drop spaces with
          | '\n' :: _ => return none
          | after =>
              take (blanks + shared + spaces + (after.take 1).length)
              return some []
      else
        take (blanks + 1)
        return some []

def heredoc (bound : Nat) (expression : Reader Expr) : Reader Expr := do
  let start ← get
  let indented := "<<-".toList.isPrefixOf start.rest
  take (if indented then 3 else 2)
  take ((← get).rest.takeWhile isBlank).length
  let marker := (← get).rest.takeWhile isMarkerChar
  if marker.isEmpty then failure
  take marker.length
  let opened ← get
  let (stretches, inside) ← apart (Reading.repeated bound (heredocPart marker expression))
  let parts := stretches.flatten
  take ((← get).rest.takeWhile isBlank).length
  let body ← sliceFrom opened
  take marker.length
  let slice ← sliceFrom start
  keep (.heredoc slice inside)
  if parts.isEmpty then return .heredoc slice indented body
  else if balanced parts then return .heredocTemplate slice (parts.flatMap Part.inside)
  else failure

end Reader

end TerraDoc.Hcl
