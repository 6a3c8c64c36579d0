import TerraDoc.Failure
import TerraDoc.Files.Listing
import TerraDoc.Module.Record

namespace TerraDoc.Module

open Files

/-- The folder of a module: its path, and its name in the documents. -/
structure Folder where
  path : List Char
  relative : String
deriving DecidableEq, Repr, Inhabited

/-- The folders in the modules folder of a repository, in ascending order of their names. -/
def discover (files : FileSystem) (repository : List Char) (modulesDir : List Char) :
    Except FileError (List Folder) := do
  let modulesDir := Text.trimWhile (· == '/') modulesDir
  let parent := Path.join repository modulesDir
  let _ ← files.node parent
  let paths := (← files.list parent).filter files.isFolder
  return paths.map fun path =>
    ⟨path, String.ofList (modulesDir ++ '/' :: (Path.fileName? path).getD [])⟩

/-- The configuration files that a folder shows, in ascending order of their names. -/
def configFiles (settings : Settings) (files : FileSystem) (folder : List Char) :
    Except FileError (List (List Char)) := do
  let isConfig (path : List Char) : Bool := (Path.fileName? path).any settings.isConfigFile
  return (← files.list folder).filter fun path => isConfig path && files.isFile path

def readConfig (files : FileSystem) (path : List Char) : Except Failure Hcl.File := do
  let source ← (files.readText path).mapError .file
  match Hcl.parse? source with
  | some file => return file
  | none => .error (.grammar path)

/-- What one file adds to a record. The main file gives the header. -/
def Record.addFile (settings : Settings) (files : FileSystem) (record : Record)
    (path : List Char) : Except Failure Record := do
  let file ← readConfig files path
  let header ←
    if Path.fileName? path = some settings.mainFile.toList then
      (Header.extract file.source).mapError Failure.header
    else pure record.header
  let declared ← (declarations file.blocks).mapError .declaration
  return { record with
    header
    inputs := record.inputs ++ declared.inputs
    outputs := record.outputs ++ declared.outputs }

def assemble (settings : Settings) (files : FileSystem) (folder : Folder) :
    Except Failure Record := do
  let paths ← (configFiles settings files folder.path).mapError .file
  paths.foldlM (Record.addFile settings files) ⟨folder.relative, .empty, [], []⟩

end TerraDoc.Module
