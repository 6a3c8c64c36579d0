import TerraDoc.Module.Folder

namespace TerraDoc

open Files

/-- Where the commits of a folder come from. -/
abbrev HistorySource := String → Except Failure (List Git.Commit)

namespace HistorySource

def none : HistorySource := fun _ => .ok []

end HistorySource

namespace Scan

/-- A module with its commits. They are looked for once its record is there. -/
def document (settings : Settings) (files : FileSystem) (history : HistorySource)
    (folder : Module.Folder) : Except Failure DocumentedModule := do
  let module ← Module.assemble settings files folder
  let commits ← history folder.relative
  return { module, commits }

def folders (settings : Settings) (files : FileSystem) (repository : List Char) :
    Except Failure (List Module.Folder) :=
  (Module.discover files repository settings.modulesDir.toList).mapError .file

/-- All modules of a repository by their folders. The first folder that fails, fails the scan. -/
def run (settings : Settings) (files : FileSystem) (repository : List Char)
    (history : HistorySource) : Except Failure Catalogue := do
  let modules ← (← folders settings files repository).mapM fun folder =>
    return (folder.relative, ← document settings files history folder)
  return Dictionary.ofList modules

/-- The folders whose commits a scan asks for: those with a record, even after one has failed. -/
def consulted (settings : Settings) (files : FileSystem) (repository : List Char) : List String :=
  match folders settings files repository with
  | .error _ => []
  | .ok folders =>
      (folders.filter fun folder => (Module.assemble settings files folder).isOk).map (·.relative)

end Scan

end TerraDoc
