import TerraDoc.Files.RuleFiles

/-!
The listing of a folder: its entries in ascending order of their names, without the hidden ones and
without those that ignore rules hide. The rules of the folder itself come before those of the
folders above it, and those of the user last. Rules of git count inside a repository.
-/

namespace TerraDoc.Files

open Ignore

/-- A folder at or above a listed one, and the names that lead from it to the listed one. -/
structure Level where
  place : List String
  down : List String
deriving DecidableEq, Repr

/-- The levels of a place, from itself to the top. -/
def levels (place : List String) : List Level :=
  (List.range (place.length + 1)).map fun up =>
    ⟨place.take (place.length - up), place.drop (place.length - up)⟩

/-- The levels up to the root of the repository; none outside of one. -/
def repositoryLevels (files : FileSystem) (all : List Level) : List Level :=
  if all.any fun level => files.hasGit level.place then
    let inside := all.takeWhile fun level => !files.hasGit level.place
    all.take (inside.length + 1)
  else []

/-- What the rules in one file of each level say of a name, the nearest level first. -/
def levelVerdict? (source : List String → RuleSource) (levels : List Level) (name : String)
    (isFolder : Bool) : Option Verdict :=
  levels.findSome? fun level =>
    let below := "/".intercalate (level.down ++ [name])
    verdict? (source level.place).rules (Text.Utf8.encode below.toList) isFolder

/-- A path as the rules of the user take it: from the folder where paths start, if the text of the
path says that it is below. -/
def userPath (here : List String) (path : List Char) : List Char :=
  let without (lead path : List Char) : List Char := (Text.after? lead path).getD path
  let path := without ['.', '/'] (without ['.', '/'] path)
  if !path.contains '/' then path
  else match Text.after? (placePath here) path with
    | some below => without ['/'] below
    | none => path

/-- What all rules say of an entry of a folder with a path and a place. -/
def entryVerdict? (files : FileSystem) (path : List Char) (place : List String) (name : String)
    (isFolder : Bool) : Option Verdict :=
  let all := levels place
  let inRepository := repositoryLevels files all
  levelVerdict? (files.fileIn · [".ignore"]) all name isFolder
    <|> levelVerdict? (files.fileIn · [".gitignore"]) inRepository name isFolder
    <|> levelVerdict? files.excludeFile inRepository name isFolder
    <|> if inRepository.isEmpty then none
      else
        let below := userPath files.here (Path.join path name.toList)
        verdict? files.userRules (Text.Utf8.encode below) isFolder

/-- Whether a listing shows an entry. A rule about a name says also whether it is hidden; a link is
no folder to the rules. -/
def isListed (files : FileSystem) (path : List Char) (place : List String)
    (entry : String × Node) : Bool :=
  match entryVerdict? files path place entry.1 entry.2.isFolder with
  | some .ignored => false
  | some .included => true
  | none => entry.1.toList.head? ≠ some '.'

/-- Whether a path stands for the input of a program, which holds no entries. -/
def isInput (path : List Char) : Bool :=
  path.head? = some '-' && Path.names path = [['-']]

namespace FileSystem

/-- What is wrong with the ignore files of the folders above a listed one, from the top. What is
wrong with those of the folder itself does not count, and rules matter to no file. -/
def listingProblems (files : FileSystem) (place : List String) : List Problem :=
  if (files.root.at? place).any Node.isFolder then
    ((levels place).drop 1).reverse.flatMap fun level =>
      [files.fileIn level.place [".ignore"], files.fileIn level.place [".gitignore"],
        files.excludeFile level.place].flatMap RuleSource.problems
  else []

/-- The paths of the entries that a folder shows. A file has none. -/
def list (files : FileSystem) (path : List Char) : Except FileError (List (List Char)) := do
  if isInput path then return []
  let place ← (files.place path).mapError (.unlisted path)
  let entries := ((files.root.at? place).map Node.entries).getD []
  match files.listingProblems place with
  | [] =>
      return (entries.filter (isListed files path place)).map fun (name, _) =>
        Path.join path name.toList
  | problems => .error (.malformed problems)

end FileSystem

end TerraDoc.Files
