import TerraDoc.Ignore.Glob
import TerraDoc.Text.Blank
import TerraDoc.Text.Bytes

/-!
Ignore rules, one on each line of an ignore file. A rule says of some paths below the file's folder
that they are ignored, or with an exclamation mark that they are not. The last rule about a path
counts.
-/

namespace TerraDoc.Ignore

inductive Verdict where
  | ignored
  | included
deriving DecidableEq, Repr

structure Rule where
  glob : Glob
  verdict : Verdict
  /-- Whether the rule is about folders alone. -/
  foldersOnly : Bool
deriving DecidableEq, Repr

/-- What is wrong with a file, or with a line of it. -/
inductive Defect where
  | malformed (pattern : List Char) (fault : Glob.Fault)
  | notText
  | isFolder
deriving DecidableEq, Repr

def Defect.message : Defect → String
  | .malformed pattern fault =>
      "error parsing glob '" ++ String.ofList pattern ++ "': " ++ fault.message
  | .notText => "stream did not contain valid UTF-8"
  | .isFolder => "Is a directory (os error 21)"

/-- What is wrong with a file that ignore rules are read from or that leads to one. -/
structure Problem where
  path : List Char
  line? : Option Nat
  defect : Defect
deriving DecidableEq, Repr

def Problem.message (problem : Problem) : String :=
  let line := problem.line?.elim "" fun number => "line " ++ toString number ++ ": "
  String.ofList problem.path ++ ": " ++ line ++ problem.defect.message

namespace Rule

/-- A line without the white space at its end; a last blank stays if it is escaped. -/
def trimLine (line : List Char) : List Char :=
  if ['\\', ' '].isSuffixOf line then line else Text.trimEnd line

/-- The pattern without a slash at its end, and whether there is one. -/
def cutSlash (pattern : List Char) : List Char × Bool :=
  match pattern.reverse with
  | '/' :: '\\' :: before => (before.reverse, true)
  | '/' :: before => (before.reverse, true)
  | _ => (pattern, false)

/-- A pattern that names no folder matches in all of them, and one for all that is below a folder
does not match the folder. -/
def widen (anchored : Bool) (pattern : List Char) : List Char :=
  let everywhere := !anchored && !pattern.contains '/' && pattern ≠ ['*', '*']
  let pattern := if everywhere then ['*', '*', '/'] ++ pattern else pattern
  if ['/', '*', '*'].isSuffixOf pattern then pattern ++ ['/', '*'] else pattern

def ofPattern (verdict : Verdict) (anchored : Bool) (pattern : List Char) :
    Except Glob.Fault Rule := do
  let (pattern, foldersOnly) := cutSlash pattern
  return { glob := ← Glob.parse (widen anchored pattern), verdict, foldersOnly }

/-- A pattern may be anchored to the folder of its file by a slash before it. -/
def ofAnchored (verdict : Verdict) : List Char → Except Glob.Fault Rule
  | '/' :: pattern => ofPattern verdict true pattern
  | pattern => ofPattern verdict false pattern

def ofTrimmed : List Char → Except Glob.Fault Rule
  | '\\' :: '!' :: rest => ofPattern .ignored false ('!' :: rest)
  | '\\' :: '#' :: rest => ofPattern .ignored false ('#' :: rest)
  | '!' :: rest => ofAnchored .included rest
  | line => ofAnchored .ignored line

/-- The rule of a line, if it holds one. Lines that start with `#` are comments. -/
def ofLine? (line : List Char) : Option (Except Defect Rule) :=
  if line.head? = some '#' then none
  else match trimLine line with
    | [] => none
    | line => some ((ofTrimmed line).mapError (.malformed line))

def appliesTo (rule : Rule) (path : List UInt8) (isFolder : Bool) : Bool :=
  (isFolder || !rule.foldersOnly) && rule.glob.isMatch path

end Rule

/-- What lines say, each with its number, up to the first one that is no text. A mark of the byte
order before the first one does not count. -/
def readLines (number : Nat) : List (Option (List Char)) → List (Nat × Except Defect Rule)
  | [] => []
  | none :: _ => [(number, .error .notText)]
  | some line :: rest =>
      let line := if number = 1 then line.dropWhile (· = '\ufeff') else line
      (Rule.ofLine? line).toList.map (number, ·) ++ readLines (number + 1) rest

/-- A file that ignore rules are read from. -/
structure IgnoreFile where
  path : List Char
  content : List UInt8
deriving DecidableEq, Repr

namespace IgnoreFile

def lines (file : IgnoreFile) : List (Nat × Except Defect Rule) :=
  readLines 1 (Text.fileLines file.content)

def rules (file : IgnoreFile) : List Rule :=
  file.lines.filterMap fun (_, said) => said.toOption

/-- What is wrong with a file. A file that is no text and has no other fault passes for empty. -/
def problems (file : IgnoreFile) : List Problem :=
  let faults := file.lines.filterMap fun
    | (number, .error defect) => some ⟨file.path, some number, defect⟩
    | _ => none
  if faults.map (·.defect) = [.notText] then [] else faults

end IgnoreFile

def verdict? (rules : List Rule) (path : List UInt8) (isFolder : Bool) : Option Verdict :=
  (rules.reverse.find? (·.appliesTo path isFolder)).map (·.verdict)

end TerraDoc.Ignore
