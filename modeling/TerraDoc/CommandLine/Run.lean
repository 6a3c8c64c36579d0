import TerraDoc.CommandLine.Request
import TerraDoc.Docs.Publication
import TerraDoc.Scan

/-!
A run of the program: it loads the settings, opens the history, scans the modules, and writes the
documents or prints the scan. Everything a run does to the world is in the world it leaves, also
when it fails.
-/

namespace TerraDoc.CommandLine

open Files

/-- The files, what git was asked, which files were written, and what was printed. -/
structure World where
  files : FileSystem
  queries : List Git.Query
  written : List (List Char)
  output : List Char

namespace World

def start (files : FileSystem) : World := ⟨files, [], [], []⟩

end World

/-- A part of a run. It leaves a world behind whether it succeeds or fails. -/
abbrev Task (α : Type) := ExceptT Failure (StateM World) α

namespace Task

def files : Task FileSystem := do
  return (← get).files

def print (text : List Char) : Task Unit :=
  modify fun world => { world with output := world.output ++ text }

/-- Ask git something in the folder of a repository. Only what was started counts as asked. -/
def ask (program : Git.Program) (repository : List Char) (query : Git.Query) : Task Git.Run := do
  match (← files).enter repository with
  | .error cause => return .notStarted cause.message
  | .ok () =>
      let run := program query.arguments
      match run with
      | .notStarted _ => return run
      | .ended _ _ _ =>
          modify fun world => { world with queries := world.queries ++ [query] }
          return run

end Task

/-- The settings of a repository; without a settings file these are the defaults. -/
def loadSettings (files : FileSystem) (repository : List Char) : Except Failure Settings :=
  let path := Path.join repository Settings.fileName.toList
  if files.isFile path then do
    let text ← (files.readText path).mapError .file
    (Settings.parse text).mapError .settings
  else .ok .default

/-- The history of a repository with its release tags, unless none is wanted. -/
def openHistory (request : Request) (program : Git.Program) : Task (Option Git.History) := do
  if request.noHistory then return none
  let repository := request.repository.toList
  let inside ← Task.ask program repository .insideWorkTree
  let history ← (Git.History.open? request.repository inside).mapError Failure.git
  let tags ← Task.ask program repository .releaseTags
  let history ← (history.loadTags tags).mapError Failure.git
  return some history

/-- The commits of folders as a history tells them. -/
def sourceOf (program : Git.Program) (history : Option Git.History) : HistorySource :=
  match history with
  | none => .none
  | some history => fun folder =>
      (history.commits folder (program (Git.Query.log folder).arguments)).mapError .git

/-- Scan the modules. Git is asked about every folder that has a record. -/
def scan (request : Request) (settings : Settings) (program : Git.Program) : Task Catalogue := do
  let history ← openHistory request program
  let files ← Task.files
  let repository := request.repository.toList
  if history.isSome then
    for folder in Scan.consulted settings files repository do
      let _ ← Task.ask program repository (.log folder)
  Scan.run settings files repository (sourceOf program history)

/-- Write the documents and say how many there are. -/
def publish (request : Request) (settings : Settings) (catalogue : Catalogue) : Task Unit := do
  let publication := Docs.publish settings request.repository.toList catalogue (← Task.files)
  modify fun world =>
    { world with files := publication.files, written := world.written ++ publication.paths }
  match publication.failure with
  | some cause => throw (.file cause)
  | none =>
      Task.print ("Wrote ".toList ++ (toString publication.paths.length).toList ++
        " README files\n".toList)

def formats : List String := ["markdown", "json"]

def generate (request : Request) (program : Git.Program) : Task Unit := do
  let settings ← loadSettings (← Task.files) request.repository.toList
  let settings := { settings with
    modulesDir := request.modulesDir.getD settings.modulesDir }
  if !formats.contains request.format then throw (.format request.format)
  let catalogue ← scan request settings program
  if request.format = "json" then Task.print (catalogue.toJson.pretty ++ ['\n'])
  else if request.outputOff then return ()
  else publish request settings catalogue

def versionText : String := "tf-autodoc 0.1.0\n"

def helpText : String :=
  "Generate Markdown documentation for a repository of Terraform modules\n\n" ++
  "Usage: tf-autodoc [OPTIONS]\n\n" ++
  "Options:\n" ++
  "      --repo <REPO>      Path to the repository containing the modules [default: .]\n" ++
  "      --mods <MODS>      Sub-folder containing the modules\n" ++
  "      --output-off       Scan the modules without writing README files\n" ++
  "      --format <FORMAT>  Output format (markdown or json) [default: markdown]\n" ++
  "      --no-history       Do not read commit history\n" ++
  "  -v, --verbose          Enable debug logging\n" ++
  "  -h, --help             Print help\n" ++
  "  -V, --version          Print version\n"

/-- What a run comes to: its exit status, why it failed, and the world it leaves. -/
structure Outcome where
  status : Nat
  failure : Option Failure
  world : World

def run (arguments : List String) (program : Git.Program) (files : FileSystem) : Outcome :=
  let world := World.start files
  match command arguments with
  | .misused => ⟨2, none, world⟩
  | .version => ⟨0, none, { world with output := versionText.toList }⟩
  | .help => ⟨0, none, { world with output := helpText.toList }⟩
  | .document request =>
      match (generate request program).run world with
      | (.ok (), world) => ⟨0, none, world⟩
      | (.error failure, world) => ⟨1, some failure, world⟩

end TerraDoc.CommandLine
