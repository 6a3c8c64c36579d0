import TerraDoc.Text.Blank
import TerraDoc.Text.Letter
import TerraDoc.Text.Line

/-!
The header of a module: a block comment whose lines name a title, a description, and perhaps
partners and dependencies, in this order. The first comment of that shape is the header.
-/

namespace TerraDoc.Module

structure Header where
  title : String
  description : String
  partners : List String
  dependencies : List String
deriving DecidableEq, Repr, Inhabited

def Header.empty : Header :=
  ⟨"", "", [], []⟩

inductive HeaderError where
  | emptyTitle
  | emptyDescription (title : String)
deriving DecidableEq, Repr

def HeaderError.message : HeaderError → String
  | .emptyTitle => "title is empty"
  | .emptyDescription title => "description of " ++ title ++ " is empty"

namespace Header

/-- The value of a line that starts with a name and a colon. -/
def field? (name : String) (line : List Char) : Option (List Char) :=
  (Text.after? (name.toList ++ [':']) line).map Text.trim

def isTitleChar (c : Char) : Bool :=
  Text.isAlphanumeric c || c == '_' || c == '-'

def isItemBlank (c : Char) : Bool :=
  c == ' ' || c == '\t' || c == '\r' || c == '\n'

/-- The items between commas. An empty one stays, so that a slip remains visible. -/
def items (list : List Char) : List String :=
  (list.splitOn ',').map fun item => String.ofList (Text.trimWhile isItemBlank item)

/-- The lines of a header after its opening, before they are checked for content. -/
structure Lines where
  title : List Char
  description : List Char
  partners : Option (List Char)
  dependencies : Option (List Char)
deriving DecidableEq, Repr

/-- A line that may be left out, and the lines after it. -/
def optionalField (name : String) (lines : List (List Char)) :
    Option (List Char) × List (List Char) :=
  match lines with
  | line :: rest =>
      match field? name line with
      | some list => (some list, rest)
      | none => (none, lines)
  | [] => (none, [])

/-- Whether the lines after an opening have the shape of a header, and what they say. -/
def shape? (lines : List (List Char)) : Option Lines :=
  match lines with
  | first :: second :: rest => do
      let title ← field? "title" first
      let description ← field? "desc" second
      if !title.all isTitleChar || Text.contains "*/".toList description then none
      else
        let (partners, rest) := optionalField "partners" rest
        let (dependencies, rest) := optionalField "depends" rest
        match rest with
        | last :: _ =>
            if Text.trim last = "*/".toList then
              some { title, description, partners, dependencies }
            else none
        | [] => none
  | _ => none

/-- The header that well-shaped lines spell; it needs a title and a description. -/
def ofLines (lines : Lines) : Except HeaderError Header :=
  if lines.title.isEmpty then .error .emptyTitle
  else if lines.description.isEmpty then .error (.emptyDescription (String.ofList lines.title))
  else .ok {
    title := String.ofList lines.title
    description := String.ofList lines.description
    partners := lines.partners.elim [] items
    dependencies := lines.dependencies.elim [] items }

/-- The first header among lines without white space at their ends. -/
def ofTrimmedLines : List (List Char) → Except HeaderError Header
  | [] => .ok .empty
  | line :: rest =>
      if line = "/*".toList then
        match shape? rest with
        | some lines => ofLines lines
        | none => ofTrimmedLines rest
      else ofTrimmedLines rest

/-- The header of a source, or an empty one. -/
def extract (source : List Char) : Except HeaderError Header :=
  ofTrimmedLines ((Text.lines source).map Text.trimEnd)

end Header

end TerraDoc.Module
