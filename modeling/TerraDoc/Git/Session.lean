import TerraDoc.Git.History

/-!
Work with histories, step by step: a repository is opened, the release tags of the one in use are
loaded, and the commits of folders are looked for, in any order. A step that fails leaves in use
what was in use before it.
-/

namespace TerraDoc.Git

inductive Action where
  | open (path : String)
  | loadTags
  | commits (folder : String)
deriving DecidableEq, Repr

def Action.query : Action → Query
  | .open _ => .insideWorkTree
  | loadTags => .releaseTags
  | commits folder => .log folder

/-- An action, and what git does in the folders at paths while it is taken. -/
structure Step where
  action : Action
  git : String → Program

/-- The repository in use: its path and its history. -/
structure InUse where
  path : String
  history : History
deriving DecidableEq, Repr

/-- What an action comes to. -/
inductive Reply where
  /-- No repository is in use. -/
  | notOpen
  | failed (cause : GitError)
  | opened
  | loaded
  | found (commits : List Commit)
deriving DecidableEq, Repr

/-- A step that was taken: its action, what git answered if it was asked, what the action came to,
and the repository in use after it. -/
structure Entry where
  action : Action
  answer : Option Run
  reply : Reply
  later : Option InUse
deriving DecidableEq, Repr

namespace Step

/-- What git answers to a step that works in the folder at a path. -/
def answerIn (step : Step) (path : String) : Run :=
  step.git path step.action.query.arguments

def take (step : Step) (inUse : Option InUse) : Entry :=
  match step.action, inUse with
  | .open path, _ =>
      let answer := step.answerIn path
      match History.open? path answer with
      | .ok history => ⟨step.action, answer, .opened, some ⟨path, history⟩⟩
      | .error cause => ⟨step.action, answer, .failed cause, inUse⟩
  | .loadTags, some { path, history } =>
      let answer := step.answerIn path
      match history.loadTags answer with
      | .ok history => ⟨step.action, answer, .loaded, some ⟨path, history⟩⟩
      | .error cause => ⟨step.action, answer, .failed cause, inUse⟩
  | .commits folder, some { path, history } =>
      let answer := step.answerIn path
      match history.commits folder answer with
      | .ok commits => ⟨step.action, answer, .found commits, inUse⟩
      | .error cause => ⟨step.action, answer, .failed cause, inUse⟩
  | _, none => ⟨step.action, none, .notOpen, none⟩

def takeAll (inUse : Option InUse) : List Step → List Entry
  | [] => []
  | step :: rest =>
      let entry := step.take inUse
      entry :: takeAll entry.later rest

def inUseAfter (inUse : Option InUse) (steps : List Step) : Option InUse :=
  steps.foldl (fun inUse step => (step.take inUse).later) inUse

end Step

end TerraDoc.Git
