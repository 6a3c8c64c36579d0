import TerraDoc.CommandLine.Run

namespace TerraDoc.Program

open Files

/-- The place of a path that starts from a folder. -/
def placeFrom (here : List String) (path : String) : List String :=
  let start := if Path.isAbsolute path.toList then [] else here
  (Path.names path.toList).foldl (fun place name =>
    if name = ['.', '.'] then place.dropLast else place ++ [String.ofList name]) start

def pathOf (place : List String) : String :=
  "/" ++ "/".intercalate place

/-- Read the file in a place, if it is one. -/
def loadFile (root : Node) (place : List String) : IO Node := do
  try
    let content ← IO.FS.readBinFile (pathOf place)
    return Node.put (.file content.toList) place root
  catch _ => return root

def loadRules (root : Node) (place : List String) : IO Node := do
  let mut root := root
  for name in [".ignore", ".gitignore", ".git"] do
    root ← loadFile root (place ++ [name])
  if ← (← IO.currentDir).join (pathOf (place ++ [".git"])) |>.isDir then
    root := Node.put (.folder []) (place ++ [".git"]) root
    root ← loadFile root (place ++ [".git", "info", "exclude"])
  return root

/-- Read the files at some paths, and at those that are known once these are read. -/
def loadPaths (files : FileSystem) (paths : FileSystem → List (List Char)) : IO FileSystem := do
  let mut files := files
  for _ in [0, 1] do
    for path in paths files do
      let root ← loadFile files.root (placeFrom files.here (String.ofList path))
      files := { files with root }
  return files

/-- Read everything in a place, and what links lead to. -/
partial def load (root : Node) (place : List String) : IO Node := do
  if (root.at? place).isSome then return root
  let path := (← IO.currentDir).join (pathOf place)
  match ← (path.symlinkMetadata).toBaseIO with
  | .error _ => return root
  | .ok metadata =>
      match metadata.type with
      | .file => loadFile root place
      | .symlink =>
          if ← path.pathExists then
            let target := (← IO.FS.realPath path).toString
            load (Node.put (.link target.toList) place root) (placeFrom [] target)
          else return root
      | .dir =>
          let mut root := Node.put (.folder []) place root
          for entry in ← path.readDir do
            if entry.fileName ≠ ".git" then root ← load root (place ++ [entry.fileName])
          loadRules root place
      | .other => return root

def loadRepository (repository : String) : IO FileSystem := do
  let home? := (← IO.getEnv "HOME").map String.toList
  let config? := (← IO.getEnv "XDG_CONFIG_HOME").map String.toList
  let here := placeFrom [] (← IO.currentDir).toString
  let place := placeFrom here repository
  let mut root ← load (.folder []) place
  for length in List.range place.length do
    root ← loadRules root (place.take length)
  if (root.at? here).isNone then root := Node.put (.folder []) here root
  let files : FileSystem := { root, here, user := ⟨home?, config?⟩ }
  let files ← loadPaths files fun files =>
    (levels place).flatMap fun level => files.linkedPaths level.place
  loadPaths files FileSystem.userPaths

/-- No other program is started, so histories cannot be read. -/
def withoutPrograms : Git.Program := fun _ => .notStarted "no other program can be started"

def save (files : FileSystem) (path : List Char) : IO Unit := do
  match files.read path with
  | .ok content => IO.FS.writeBinFile (String.ofList path) ⟨content.toArray⟩
  | .error _ => return ()

end TerraDoc.Program

def main (arguments : List String) : IO UInt32 := do
  let files ← match TerraDoc.CommandLine.command arguments with
    | .document request => TerraDoc.Program.loadRepository request.repository
    | _ => pure ⟨.folder [], []⟩
  let outcome := TerraDoc.CommandLine.run arguments TerraDoc.Program.withoutPrograms files
  for path in outcome.world.written do
    TerraDoc.Program.save outcome.world.files path
  IO.print (String.ofList outcome.world.output)
  if let some failure := outcome.failure then
    IO.eprintln ("Error: " ++ failure.message)
  else if outcome.status ≠ 0 then
    IO.eprintln "For more information, try --help."
  return outcome.status.toUInt32
