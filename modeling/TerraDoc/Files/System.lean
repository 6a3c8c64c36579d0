import TerraDoc.Files.Error
import TerraDoc.Files.Tree
import TerraDoc.Path
import TerraDoc.Text.Utf8

/-!
A file system: a tree and the place in it from which paths start. Symbolic links on a path are
followed, so what is found is always a file or a folder.
-/

namespace TerraDoc.Files

/-- The folder of the user, and the one set for configuration. -/
class User where
  home? : Option (List Char)
  config? : Option (List Char)
deriving DecidableEq, Repr, Inhabited

/-- A user of whom nothing is known. -/
instance : User := ⟨none, none⟩

structure FileSystem where
  root : Node
  here : List String
  [user : User]
deriving Repr, Inhabited

/-- Where a path leads: to something, or to a name that is missing in a folder. -/
inductive Spot where
  | present (place : List String)
  | absent (folder : List String) (name : String)
deriving DecidableEq, Repr

/-- Where a path starts, if it is met at a place. -/
def startOf (place : List String) (path : List Char) : List String :=
  if Path.isAbsolute path then [] else place

/-- Take steps from a place. `follow` goes on at the target of a link. -/
def walkWith (root : Node) (follow : List String → List (List Char) → Except FileError Spot)
    (place : List String) : List (List Char) → Except FileError Spot
  | [] => .ok (.present place)
  | step :: rest =>
      match root.at? place with
      | some (.folder entries) =>
          if step = ['.'] then walkWith root follow place rest
          else if step = ['.', '.'] then walkWith root follow place.dropLast rest
          else
            let name := String.ofList step
            match Dictionary.find? name entries with
            | some (.link target) => follow (startOf place target) (Path.steps target ++ rest)
            | some _ => walkWith root follow (place ++ [name]) rest
            | none => if rest.isEmpty then .ok (.absent place name) else .error .notFound
      | _ => .error .notFolder

/-- Take steps from a place and follow at most so many links. -/
def walk (root : Node) : Nat → List String → List (List Char) → Except FileError Spot
  | 0 => walkWith root fun _ _ => .error .tooManyLinks
  | links + 1 => walkWith root (walk root links)

def linkLimit : Nat := 40

namespace FileSystem

def checked (path : List Char) : Except FileError (List Char) :=
  if path.contains '\x00' then .error .nulInPath
  else if path.isEmpty then .error .notFound
  else .ok path

def spot (files : FileSystem) (path : List Char) : Except FileError Spot := do
  let path ← checked path
  walk files.root linkLimit (startOf files.here path) (Path.steps path)

/-- The place of the file or folder at a path. -/
def place (files : FileSystem) (path : List Char) : Except FileError (List String) := do
  match ← files.spot path with
  | .present place => return place
  | .absent _ _ => .error .notFound

def node (files : FileSystem) (path : List Char) : Except FileError Node := do
  let place ← files.place path
  match files.root.at? place with
  | some node => return node
  | none => .error .notFound

def isFile (files : FileSystem) (path : List Char) : Bool :=
  match files.node path with
  | .ok node => node.isFile
  | .error _ => false

def isFolder (files : FileSystem) (path : List Char) : Bool :=
  match files.node path with
  | .ok node => node.isFolder
  | .error _ => false

/-- Whether work can be done in the folder at a path. -/
def enter (files : FileSystem) (path : List Char) : Except FileError Unit := do
  match ← files.node path with
  | .folder _ => return ()
  | _ => .error .notFolder

def read (files : FileSystem) (path : List Char) : Except FileError (List UInt8) := do
  match ← files.node path with
  | .file content => return content
  | _ => .error .isFolder

def readText (files : FileSystem) (path : List Char) : Except FileError (List Char) := do
  match Text.Utf8.decode? (← files.read path) with
  | some text => return text
  | none => .error .notText

def put (files : FileSystem) (place : List String) (node : Node) : FileSystem :=
  { files with root := node.put place files.root }

/-- Give a file a new content. A file that is missing is made in its folder. A path that ends with
a slash names no file. -/
def write (files : FileSystem) (path : List Char) (content : List UInt8) :
    Except FileError FileSystem := do
  if path.getLast? = some '/' then
    let path ← checked path
    let above := (Path.steps path).dropLast.dropLast ++ [['.']]
    let _ ← walk files.root linkLimit (startOf files.here path) above
    .error .isFolder
  else
    match ← files.spot path with
    | .absent folder name => return files.put (folder ++ [name]) (.file content)
    | .present place =>
        match files.root.at? place with
        | some (.folder _) => .error .isFolder
        | _ => return files.put place (.file content)

end FileSystem

end TerraDoc.Files
