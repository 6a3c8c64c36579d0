import TerraDoc.Dictionary
import TerraDoc.Text.Blank
import TerraDoc.Text.Line
import TerraDoc.Text.Utf8

/-!
The history of module folders, as git tells it. What git is asked is a `Query`; what it answers is
a `Run`. A history holds the release tags that the last successful look at them gave.
-/

namespace TerraDoc.Git

/-- A commit that touched a module, with the release tag that points at it or an empty text. -/
structure Commit where
  hash : String
  message : String
  tag : String
deriving DecidableEq, Repr, Inhabited

namespace Commit

def isTagged (commit : Commit) : Bool :=
  !commit.tag.isEmpty

/-- The first six bytes of the hash, or all of it if they do not end with a character. -/
def shortHash (commit : Commit) : String :=
  let rec go (owed : Nat) : List Char → Option (List Char)
    | [] => none
    | c :: rest =>
        if c.utf8Size = owed then some [c]
        else if c.utf8Size < owed then (go (owed - c.utf8Size) rest).map (c :: ·)
        else none
  ((go 6 commit.hash.toList).map String.ofList).getD commit.hash

end Commit

/-- What a run of git came to: it could not be started, or it ended with a status and wrote to its
two outputs. -/
inductive Run where
  | notStarted (reason : String)
  | ended (status : Int) (output : List UInt8) (errors : List UInt8)
deriving DecidableEq, Repr, Inhabited

/-- A git program by what it does with its arguments. -/
abbrev Program := List String → Run

inductive GitError where
  /-- Git could not be started, to run one of its commands or at all. -/
  | notStarted (command : Option String) (reason : String)
  | notRepository (path : String)
  | failed (command : String) (errors : String)
  /-- A history of another origin cannot be read. -/
  | unreadable (reason : String)
deriving DecidableEq, Repr

def GitError.message : GitError → String
  | .notStarted none reason => "Failed to run git: " ++ reason
  | .notStarted (some command) reason => "Failed to run git " ++ command ++ ": " ++ reason
  | .notRepository path => "Not a git repository: " ++ path
  | .failed command errors => "git " ++ command ++ " failed: " ++ errors
  | .unreadable reason => reason

inductive Query where
  | insideWorkTree
  | releaseTags
  /-- The commits that touched configuration files below a folder. -/
  | log (folder : String)
deriving DecidableEq, Repr

def fieldSeparator : Char := '\x1f'

def recordSeparator : Char := '\x1e'

/-- The patterns of the configuration files below a folder. -/
def pathspecs (folder : List Char) : List String :=
  let folder := Text.trimWhile (· == '/') folder
  [String.ofList (":(glob)".toList ++ folder ++ "/**/*tf".toList),
    String.ofList (":(glob)".toList ++ folder ++ "/**/*TF".toList)]

namespace Query

def command : Query → String
  | insideWorkTree => "rev-parse"
  | releaseTags => "for-each-ref"
  | log _ => "log"

def options : Query → List String
  | insideWorkTree => ["--is-inside-work-tree"]
  | releaseTags =>
      ["--format=%(objecttype)%09%(refname:strip=2)%09%(*objectname)", "refs/tags"]
  | log folder =>
      String.ofList ("--format=%H".toList ++ fieldSeparator :: "%B".toList ++ [recordSeparator]) ::
        "--" :: pathspecs folder.toList

def arguments (query : Query) : List String :=
  query.command :: query.options

def outputOf (query : Query) : Run → Except GitError (List Char)
  | .notStarted reason => .error (.notStarted (some query.command) reason)
  | .ended status output errors =>
      if status = 0 then .ok (Text.Utf8.decodeLossy output)
      else .error (.failed query.command
        (String.ofList (Text.trim (Text.Utf8.decodeLossy errors))))

end Query

/-- The tag that a line of the tag list gives to a commit. Only tags that are objects of their own
count. -/
def tagOfLine? (line : List Char) : Option (String × String) :=
  match line.splitOn '\t' with
  | kind :: name :: target :: _ =>
      if kind = "tag".toList && !target.isEmpty then
        some (String.ofList target, String.ofList name)
      else none
  | _ => none

/-- The tags of commits. The last line about a commit counts. -/
def tagsOf (list : List Char) : Dictionary String :=
  Dictionary.ofList ((Text.lines list).filterMap tagOfLine?)

def isLineBreak (c : Char) : Bool :=
  c == '\n' || c == '\r'

/-- The hash and the message of one record of the log. -/
def recordOf? (record : List Char) : Option (List Char × List Char) :=
  match Text.cut fieldSeparator (record.dropWhile isLineBreak) with
  | none => none
  | some (hash, message) =>
      if (Text.trim hash).isEmpty then none
      else some (Text.trim hash, Text.trimEndWhile isLineBreak message)

/-- The commits of a log, each with its tag. -/
def commitsOf (tags : Dictionary String) (log : List Char) : List Commit :=
  ((log.splitOn recordSeparator).filterMap recordOf?).map fun (hash, message) =>
    { hash := String.ofList hash
      message := String.ofList message
      tag := (tags.find? (String.ofList hash)).getD "" }

/-- A repository whose history can be read, and its release tags as far as they are loaded. -/
structure History where
  tags : Dictionary String
deriving DecidableEq, Repr, Inhabited

namespace History

/-- The history of the work tree at a path, with no tags yet. -/
def open? (path : String) : Run → Except GitError History
  | .notStarted reason => .error (.notStarted none reason)
  | .ended status _ _ => if status = 0 then .ok ⟨[]⟩ else .error (.notRepository path)

/-- The history with the tags of a new look at them in place of the old ones. -/
def loadTags (run : Run) (_ : History) : Except GitError History :=
  (Query.releaseTags.outputOf run).map fun list => ⟨tagsOf list⟩

def commits (folder : String) (run : Run) (history : History) : Except GitError (List Commit) :=
  ((Query.log folder).outputOf run).map (commitsOf history.tags)

end History

end TerraDoc.Git
