import TerraDoc.Files.System
import TerraDoc.Ignore.ExcludesFile

/-!
The files that the ignore rules of a folder are read from: `.ignore`, `.gitignore`, the exclude file
of the repository that is rooted in the folder, and a file of the user for all repositories. The
exclude file of a work tree is that of its main repository, to which the file `.git` leads.
-/

namespace TerraDoc.Files

open Ignore

def placePath (place : List String) : List Char :=
  ("/" ++ "/".intercalate place).toList

/-- A file with rules, or none: because it is missing, or because the way to it is broken. -/
abbrev RuleSource := Except (Option Problem) IgnoreFile

namespace RuleSource

def rules : RuleSource → List Rule
  | .ok file => file.rules
  | .error _ => []

def problems : RuleSource → List Problem
  | .ok file => file.problems
  | .error problem? => problem?.toList

end RuleSource

namespace User

def configFolder? (user : User) : Option (List Char) :=
  user.config?.filter (!·.isEmpty) <|> user.home?.map (Path.join · ".config".toList)

def gitFiles (user : User) : List (List Char) :=
  (user.home?.map (Path.join · ".gitconfig".toList)).toList ++
    (user.configFolder?.map (Path.join · "git/config".toList)).toList

/-- A path with the folder of the user for each tilde. -/
def expand (user : User) (path : List Char) : List Char :=
  match user.home? with
  | some home => path.flatMap fun c => if c = '~' then home else [c]
  | none => path

end User

namespace FileSystem

/-- What is at the end of a path from a place, through all links. -/
def lookAt? (files : FileSystem) (place : List String) (path : List String) : Option Node :=
  match walk files.root linkLimit place (path.map String.toList) with
  | .ok (.present place) => files.root.at? place
  | _ => none

def hasGit (files : FileSystem) (place : List String) : Bool :=
  (files.lookAt? place [".git"]).isSome

/-- The file that names lead to from a place. -/
def fileIn (files : FileSystem) (place names : List String) : RuleSource :=
  match files.lookAt? place names with
  | some (.file content) => .ok ⟨placePath (place ++ names), content⟩
  | _ => .error none

def fileAt (files : FileSystem) (path : List Char) : RuleSource :=
  match files.read path with
  | .ok content => .ok ⟨path, content⟩
  | .error _ => .error none

/-- The path of the ignore file of the user. -/
def excludesFile? (files : FileSystem) : Option (List Char) :=
  let named := files.user.gitFiles.findSome? fun path => do
    Ignore.excludesFile? (← (files.read path).toOption)
  named.map files.user.expand <|>
    files.user.configFolder?.map (Path.join · "git/ignore".toList)

def userRules (files : FileSystem) : List Rule :=
  (files.excludesFile?.map fun path => (files.fileAt path).rules).getD []

end FileSystem

/-- The first line of a file that leads to another one. -/
def firstLine (file : IgnoreFile) : Except (Option Problem) (List Char) :=
  match Text.fileLines file.content with
  | [] => .error none
  | some line :: _ => .ok line
  | none :: _ => .error (some ⟨file.path, none, .notText⟩)

namespace FileSystem

/-- The folder of git that the file `.git` in a place names. -/
def gitFolder (files : FileSystem) (place : List String) : Except (Option Problem) (List Char) := do
  let line ← firstLine (← files.fileIn place [".git"])
  (Text.after? "gitdir: ".toList line).elim (.error none) .ok

/-- The file in a folder of git that says which one it shares with others. -/
def sharedFile (folder : List Char) : List Char :=
  Path.join folder "commondir".toList

def sharedFolder (files : FileSystem) (folder : List Char) :
    Except (Option Problem) (List Char) := do
  let path := sharedFile folder
  if files.isFolder path then .error (some ⟨path, none, .isFolder⟩)
  else
    let line ← firstLine (← files.fileAt path)
    return if line.head? = some '.' then Path.join folder line else line

def excludeIn (folder : List Char) : List Char :=
  Path.join folder "info/exclude".toList

/-- The exclude file of the repository that is rooted in a place. -/
def excludeFile (files : FileSystem) (place : List String) : RuleSource :=
  match files.fileIn place [".git"] with
  | .ok _ => do files.fileAt (excludeIn (← files.sharedFolder (← files.gitFolder place)))
  | .error _ => files.fileIn place [".git", "info", "exclude"]

/-- The paths that the file `.git` in a place leads to. -/
def linkedPaths (files : FileSystem) (place : List String) : List (List Char) :=
  match files.gitFolder place with
  | .error _ => []
  | .ok folder => sharedFile folder :: match files.sharedFolder folder with
    | .error _ => []
    | .ok shared => [excludeIn shared]

/-- The paths that are read for the rules of the user. -/
def userPaths (files : FileSystem) : List (List Char) :=
  files.user.gitFiles ++ files.excludesFile?.toList

end FileSystem

end TerraDoc.Files
