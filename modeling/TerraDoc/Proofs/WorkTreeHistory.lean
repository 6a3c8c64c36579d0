import TerraDoc.Proofs.ReleaseTags

/-!
Where the history in use comes from. Tags and commits are only ever asked for in the folder of the
repository that was opened last, and that one was opened because git ended with status 0. What git
printed then is not looked at: it is `true` as long as git has a good end for work trees alone.
-/

namespace TerraDoc.Git

/-- Git ended well and said that the folder it ran in is inside a work tree. -/
def Run.IsWorkTree (answer : Run) : Prop :=
  ∃ output errors, answer = .ended 0 output errors ∧
    Text.trim (Text.Utf8.decodeLossy output) = "true".toList

/-- At this step git has a good end for a folder that is opened only if that is inside a work
tree. -/
def Step.Truthful (step : Step) : Prop :=
  ∀ path output errors, step.action = .open path →
    step.git path ["rev-parse", "--is-inside-work-tree"] = .ended 0 output errors →
    (step.git path ["rev-parse", "--is-inside-work-tree"]).IsWorkTree

/-- Of some steps one opened the repository at a path, git having answered so, and no later step
opened another one. -/
inductive LastOpening (path : String) (answer : Run) : List Step → Prop where
  | here (steps : List Step) {step : Step} (action : step.action = .open path)
      (asked : step.git path ["rev-parse", "--is-inside-work-tree"] = answer) :
      LastOpening path answer (steps ++ [step])
  | before {steps : List Step} (opening : LastOpening path answer steps) {step : Step}
      (kept : (step.take (Step.inUseAfter none steps)).reply ≠ .opened) :
      LastOpening path answer (steps ++ [step])

/-- What a step does to the repository in use: it opens one, it works with the one in use in its
folder, or it changes nothing. -/
inductive Step.Uses (step : Step) (inUse : Option InUse) : Entry → Prop where
  | opens {path : String} {output errors : List UInt8} (action : step.action = .open path)
      (ended : step.answerIn path = .ended 0 output errors) :
      Uses step inUse ⟨step.action, some (step.answerIn path), .opened, some ⟨path, ⟨[]⟩⟩⟩
  | refuses {path : String} (action : step.action = .open path)
      (unsuccessful : ∀ output errors, step.answerIn path ≠ .ended 0 output errors)
      (cause : GitError) :
      Uses step inUse ⟨step.action, some (step.answerIn path), .failed cause, inUse⟩
  | works {used : InUse} (same : inUse = some used) (other : ∀ path, step.action ≠ .open path)
      {reply : Reply} (opensNone : reply ≠ .opened) (later : History) :
      Uses step inUse ⟨step.action, some (step.answerIn used.path), reply, some ⟨used.path, later⟩⟩
  | nothing (other : ∀ path, step.action ≠ .open path) :
      Uses step inUse ⟨step.action, none, .notOpen, none⟩

theorem Step.uses (step : Step) (inUse : Option InUse) : step.Uses inUse (step.take inUse) := by
  obtain ⟨action, git⟩ := step
  cases action with
  | «open» path =>
    unfold Step.take
    cases answer : Step.answerIn ⟨.open path, git⟩ path with
    | notStarted reason =>
      have refused : Step.Uses ⟨.open path, git⟩ inUse _ := .refuses rfl
        (by simp [answer]) (.notStarted none reason)
      rw [answer] at refused
      simpa [answer, History.open?] using refused
    | ended status output errors =>
      by_cases good : status = 0
      · subst good
        have opened : Step.Uses ⟨.open path, git⟩ inUse _ := .opens rfl answer
        rw [answer] at opened
        simpa [answer, History.open?] using opened
      · have refused : Step.Uses ⟨.open path, git⟩ inUse _ := .refuses rfl
          (by simp [answer, good]) (.notRepository path)
        rw [answer] at refused
        simpa [answer, History.open?, good] using refused
  | loadTags =>
    have other : ∀ path, (⟨.loadTags, git⟩ : Step).action ≠ .open path := by simp
    cases inUse with
    | none => exact .nothing other
    | some used =>
      unfold Step.take
      dsimp only
      split
      · exact .works rfl other (by simp) _
      · exact .works rfl other (by simp) _
  | commits folder =>
    have other : ∀ path, (⟨.commits folder, git⟩ : Step).action ≠ .open path := by simp
    cases inUse with
    | none => exact .nothing other
    | some used =>
      unfold Step.take
      dsimp only
      split
      · exact .works rfl other (by simp) _
      · exact .works rfl other (by simp) _

theorem Step.Uses.asked {step : Step} {inUse : Option InUse} {entry : Entry} {answer : Run}
    (uses : step.Uses inUse entry) (asked : entry.answer = some answer)
    (notOpen : ∀ path, step.action ≠ .open path) :
    ∃ used, inUse = some used ∧ answer = step.answerIn used.path := by
  cases uses with
  | opens action | refuses action => exact absurd action (notOpen _)
  | works same =>
    cases asked
    exact ⟨_, same, rfl⟩
  | nothing => cases asked

theorem Step.Uses.opened {step : Step} {inUse : Option InUse} {entry : Entry} {path : String}
    (uses : step.Uses inUse entry) (action : step.action = .open path) :
    ((∃ output errors, step.answerIn path = .ended 0 output errors) ∧
      entry.reply = .opened ∧ entry.later = some ⟨path, ⟨[]⟩⟩) ∨
    ((∀ output errors, step.answerIn path ≠ .ended 0 output errors) ∧
      (∃ cause, entry.reply = .failed cause) ∧ entry.later = inUse) := by
  cases uses with
  | opens action' ended =>
    cases action.symm.trans action'
    exact .inl ⟨⟨_, _, ended⟩, rfl, rfl⟩
  | refuses action' unsuccessful cause =>
    cases action.symm.trans action'
    exact .inr ⟨unsuccessful, ⟨cause, rfl⟩, rfl⟩
  | works same other | nothing other => exact absurd action (other path)

theorem Step.inUseAfter_concat (inUse : Option InUse) (steps : List Step) (step : Step) :
    inUseAfter inUse (steps ++ [step]) = (step.take (inUseAfter inUse steps)).later := by
  simp [inUseAfter, List.foldl_append]

theorem Step.answerIn_open {step : Step} {path : String} (action : step.action = .open path) :
    step.answerIn path = step.git path ["rev-parse", "--is-inside-work-tree"] := by
  simp [answerIn, action, Action.query, Query.arguments, Query.command, Query.options]

/-- The repository in use is the one that was opened last, where git ended with status 0. -/
def OpenedLast (steps : List Step) (inUse : Option InUse) : Prop :=
  ∀ used ∈ inUse, ∃ output errors, LastOpening used.path (.ended 0 output errors) steps

theorem OpenedLast.uses {steps : List Step} {step : Step} {entry : Entry}
    (openedLast : OpenedLast steps (Step.inUseAfter none steps))
    (uses : step.Uses (Step.inUseAfter none steps) entry)
    (taken : step.take (Step.inUseAfter none steps) = entry) :
    OpenedLast (steps ++ [step]) entry.later := by
  intro used inUse
  cases uses with
  | opens action ended =>
    cases inUse
    exact ⟨_, _, .here steps action ((Step.answerIn_open action).symm.trans ended)⟩
  | refuses action unsuccessful cause =>
    obtain ⟨output, errors, opening⟩ := openedLast used inUse
    exact ⟨output, errors, opening.before (by simp [taken])⟩
  | works same other opensNone later =>
    cases inUse
    obtain ⟨output, errors, opening⟩ := openedLast _ same
    exact ⟨output, errors, opening.before (by simp [taken, opensNone])⟩
  | nothing => cases inUse

theorem openedLast_inUseAfter (steps : List Step) :
    OpenedLast steps (Step.inUseAfter none steps) := by
  induction steps using List.reverseRecOn with
  | nil =>
    intro used none
    cases none
  | append_singleton steps step inductionHypothesis =>
    rw [Step.inUseAfter_concat]
    exact inductionHypothesis.uses (step.uses _) rfl

theorem LastOpening.exists_step {path : String} {answer : Run} {steps : List Step}
    (opening : LastOpening path answer steps) :
    ∃ step ∈ steps, step.action = .open path ∧
      step.git path ["rev-parse", "--is-inside-work-tree"] = answer := by
  induction opening with
  | here steps action asked => exact ⟨_, by simp, action, asked⟩
  | before opening kept inductionHypothesis =>
    obtain ⟨step, member, opened⟩ := inductionHypothesis
    exact ⟨step, List.mem_append_left _ member, opened⟩

/-- Whatever steps are taken, as long as git has a good end for the folder of an opening only if
that is inside a work tree: git is asked about tags and commits only in the folder of the
repository that was opened last, of which it had said that it is inside a work tree. A repository
is opened exactly if git says so of its folder; otherwise the step fails, and the one in use stays
in use. -/
theorem history_of_work_tree (before rest : List Step) (step : Step)
    (truthful : ∀ taken ∈ before ++ [step], taken.Truthful) :
    let past := Step.takeAll none before
    let inUse := Step.inUseAfter none before
    let entry := step.take inUse
    Step.takeAll none (before ++ step :: rest) = past ++ entry :: Step.takeAll entry.later rest ∧
    (∀ answer, entry.answer = some answer → (∀ path, step.action ≠ .open path) →
      ∃ path opened, LastOpening path opened before ∧ opened.IsWorkTree ∧
        answer = step.git path step.action.query.arguments) ∧
    (∀ path, step.action = .open path →
      ((step.git path ["rev-parse", "--is-inside-work-tree"]).IsWorkTree →
        entry.reply = .opened ∧ entry.later = some ⟨path, ⟨[]⟩⟩) ∧
      (¬ (step.git path ["rev-parse", "--is-inside-work-tree"]).IsWorkTree →
        (∃ cause, entry.reply = .failed cause) ∧ entry.later = inUse)) := by
  intro past inUse entry
  have uses : step.Uses inUse entry := step.uses inUse
  refine ⟨Step.takeAll_append none before (step :: rest), ?_, ?_⟩
  · intro answer asked notOpen
    obtain ⟨used, same, rfl⟩ := uses.asked asked notOpen
    obtain ⟨output, errors, opening⟩ := openedLast_inUseAfter before used same
    obtain ⟨opener, member, action, ended⟩ := opening.exists_step
    have inside := truthful opener (List.mem_append_left _ member) _ output errors action ended
    rw [ended] at inside
    exact ⟨used.path, _, opening, inside, rfl⟩
  · intro path action
    have honest := truthful step (by simp) path
    rcases uses.opened action with ⟨⟨output, errors, ended⟩, opened⟩ | ⟨unsuccessful, failed⟩
    · rw [Step.answerIn_open action] at ended
      exact ⟨fun _ => opened, fun outside => absurd (honest output errors action ended) outside⟩
    · refine ⟨fun ⟨output, errors, ended, _⟩ => ?_, fun _ => failed⟩
      rw [← Step.answerIn_open action] at ended
      exact absurd ended (unsuccessful output errors)

/-- A machine with one work tree. -/
def workTreeGit : String → Program := fun path arguments =>
  if path ≠ "repo" then .ended 128 [] (Text.Utf8.encode "fatal: not a git repository".toList)
  else if arguments = ["rev-parse", "--is-inside-work-tree"] then
    .ended 0 (Text.Utf8.encode "true\n".toList) []
  else .ended 0 [] []

theorem truthful_workTreeGit (action : Action) : Step.Truthful ⟨action, workTreeGit⟩ := by
  intro path output errors _ ended
  by_cases inside : path = "repo"
  · subst inside
    exact ⟨_, _, rfl, by decide⟩
  · simp [workTreeGit, inside] at ended

/-- The tags are loaded from the work tree, also after another folder could not be opened. -/
theorem history_of_work_tree_tags :
    let before : List Step := [⟨.open "repo", workTreeGit⟩, ⟨.open "notes", workTreeGit⟩]
    let step : Step := ⟨.loadTags, workTreeGit⟩
    (∀ taken ∈ before ++ [step], taken.Truthful) ∧
      (step.take (Step.inUseAfter none before)).reply = .loaded ∧
      ∃ path opened, LastOpening path opened before ∧ opened.IsWorkTree ∧
        workTreeGit "repo" Query.releaseTags.arguments =
          workTreeGit path Query.releaseTags.arguments := by
  intro before step
  have truthful : ∀ taken ∈ before ++ [step], taken.Truthful := by
    simp [before, step, truthful_workTreeGit]
  obtain ⟨-, asked, -⟩ := history_of_work_tree before [] step truthful
  exact ⟨truthful, by decide +kernel, asked _ rfl nofun⟩

/-- A repository without a work tree: git ends well and prints `false`. -/
def bareGit : String → Program := fun _ arguments =>
  if arguments = ["rev-parse", "--is-inside-work-tree"] then
    .ended 0 (Text.Utf8.encode "false\n".toList) []
  else .ended 0 [] []

/-- What git prints about a folder is not looked at: a repository without a work tree is opened,
and its tags are loaded. -/
theorem bare_repository_opened :
    ¬ (bareGit "." ["rev-parse", "--is-inside-work-tree"]).IsWorkTree ∧
      (Step.takeAll none [⟨.open ".", bareGit⟩, ⟨.loadTags, bareGit⟩]).map Entry.reply =
        [.opened, .loaded] := by
  refine ⟨?_, by decide +kernel⟩
  rintro ⟨output, errors, same, said⟩
  cases same
  exact absurd said (by decide)

end TerraDoc.Git
