import TerraDoc.Git.Session
import TerraDoc.Proofs.DictionaryOrder
import TerraDoc.Proofs.Results

/-!
Which release a commit is shown with. The tags in use come from one list that git printed, the one
of the last successful look at them since the repository was opened, and of its lines about a commit
the last one counts.
-/

namespace TerraDoc.Git

/-- The name on a line that says that the release points at a commit. -/
def releaseOnLine? (hash : String) (line : List Char) : Option String :=
  match line.splitOn '\t' with
  | kind :: name :: target :: _ =>
      if kind = "tag".toList ∧ target = hash.toList then some (String.ofList name) else none
  | _ => none

/-- The name on the last line of a tag list that says that a release points at a commit. -/
def releaseOf? (list : List Char) (hash : String) : Option String :=
  (Text.lines list).reverse.findSome? (releaseOnLine? hash)

/-- Lines of other kinds and lines without a target give no tag to any commit. -/
theorem tagOfLine?_bind (line : List Char) (hash : String) :
    ((tagOfLine? line).bind fun entry => if entry.1 = hash then some entry.2 else none) =
      if hash = "" then none else releaseOnLine? hash line := by
  rw [tagOfLine?, releaseOnLine?]
  match line.splitOn '\t' with
  | [] | [_] | [_, _] => simp
  | kind :: name :: target :: more =>
    dsimp only
    have same : String.ofList target = hash ↔ target = hash.toList := by
      rw [← String.toList_inj, String.toList_ofList]
    by_cases tagged : kind = "tag".toList
    · by_cases empty : target = []
      · subst empty
        by_cases blank : hash = ""
        · simp [blank]
        · have other : ¬ [] = hash.toList := by
            rw [← same]
            exact fun here => blank here.symm
          simp [blank, other]
      · by_cases blank : hash = ""
        · simp [blank, empty]
        · simp [tagged, empty, blank, same]
    · have skipped : ¬ (kind = "tag".toList && !target.isEmpty) = true := by
        rw [decide_eq_false tagged]
        simp
      have other : ¬ (kind = "tag".toList ∧ target = hash.toList) := fun both => tagged both.1
      rw [if_neg skipped, if_neg other, Option.bind_none, ite_self]

theorem find?_tagsOf (list : List Char) (hash : String) :
    (tagsOf list).find? hash = if hash = "" then none else releaseOf? list hash := by
  rw [tagsOf, Dictionary.find?_ofList, ← List.filterMap_reverse, Dictionary.lookup_filterMap]
  simp only [tagOfLine?_bind]
  split
  · rw [List.findSome?_eq_none_iff]
    intro line _
    rfl
  · rfl

theorem mem_commitsOf {tags : Dictionary String} {log : List Char} {commit : Commit}
    (member : commit ∈ commitsOf tags log) :
    commit.hash ≠ "" ∧ commit.tag = (tags.find? commit.hash).getD "" := by
  obtain ⟨⟨hash, message⟩, among, rfl⟩ := List.mem_map.mp member
  refine ⟨?_, rfl⟩
  obtain ⟨record, -, found⟩ := List.mem_filterMap.mp among
  rw [recordOf?] at found
  split at found
  · cases found
  · split at found
    · cases found
    · rename_i nonempty
      cases found
      intro empty
      apply nonempty
      have characters := congrArg String.toList empty
      rw [String.toList_ofList] at characters
      rw [characters]
      rfl

/-- The tag list that an entry puts in the place of the one before: an opened repository has none,
and a look at the tags gives what git printed. -/
def Entry.listing? (entry : Entry) : Option (List Char) :=
  match entry.reply, entry.answer with
  | .opened, _ => some []
  | .loaded, some (.ended _ output _) => some (Text.Utf8.decodeLossy output)
  | _, _ => none

/-- The list of the last successful look at the tags since a repository was opened with success. -/
def listing (entries : List Entry) : List Char :=
  (entries.reverse.findSome? Entry.listing?).getD []

theorem listing_concat (entries : List Entry) (entry : Entry) :
    listing (entries ++ [entry]) = entry.listing?.getD (listing entries) := by
  rw [listing, List.reverse_concat, List.findSome?_cons]
  cases entry.listing? with
  | none => rfl
  | some list => rfl

/-- What a step comes to, one case for each kind of success and one for what changes nothing. -/
inductive Step.Took (step : Step) (inUse : Option InUse) : Entry → Prop where
  | opened (path : String) (answer : Option Run) :
      Took step inUse ⟨step.action, answer, .opened, some ⟨path, ⟨[]⟩⟩⟩
  | loaded (path : String) (status : Int) (output errors : List UInt8) :
      Took step inUse ⟨step.action, some (.ended status output errors), .loaded,
        some ⟨path, ⟨tagsOf (Text.Utf8.decodeLossy output)⟩⟩⟩
  | found {used : InUse} (same : inUse = some used) (answer : Option Run) (log : List Char) :
      Took step inUse ⟨step.action, answer, .found (commitsOf used.history.tags log), inUse⟩
  | failed (answer : Option Run) (cause : GitError) :
      Took step inUse ⟨step.action, answer, .failed cause, inUse⟩
  | notOpen (closed : inUse = none) : Took step inUse ⟨step.action, none, .notOpen, inUse⟩

theorem Query.outputOf_eq_ok {query : Query} {answer : Run} {text : List Char}
    (ended : query.outputOf answer = .ok text) :
    ∃ status output errors, answer = .ended status output errors ∧
      text = Text.Utf8.decodeLossy output := by
  cases answer with
  | notStarted => cases ended
  | ended status output errors =>
    rw [Query.outputOf] at ended
    split at ended
    · cases ended
      exact ⟨status, output, errors, rfl, rfl⟩
    · cases ended

theorem History.open?_eq_ok {path : String} {answer : Run} {history : History}
    (opened : History.open? path answer = .ok history) : history = ⟨[]⟩ := by
  cases answer with
  | notStarted => cases opened
  | ended status output errors =>
    rw [History.open?] at opened
    split at opened
    · cases opened
      rfl
    · cases opened

theorem Step.took (step : Step) (inUse : Option InUse) : step.Took inUse (step.take inUse) := by
  obtain ⟨action, git⟩ := step
  cases action with
  | «open» path =>
    unfold Step.take
    dsimp only
    split
    · rename_i history ended
      rw [History.open?_eq_ok ended]
      exact .opened path _
    · exact .failed _ _
  | loadTags =>
    cases inUse with
    | none => exact .notOpen rfl
    | some used =>
      unfold Step.take
      dsimp only
      split
      · rename_i history ended
        obtain ⟨list, printed, rfl⟩ := Except.map_eq_ok.mp ended
        obtain ⟨status, output, errors, answered, rfl⟩ := Query.outputOf_eq_ok printed
        rw [answered]
        exact .loaded used.path status output errors
      · exact .failed _ _
  | commits folder =>
    cases inUse with
    | none => exact .notOpen rfl
    | some used =>
      unfold Step.take
      dsimp only
      split
      · rename_i commits ended
        obtain ⟨log, -, rfl⟩ := Except.map_eq_ok.mp ended
        exact .found rfl _ log
      · exact .failed _ _

theorem Step.Took.commits_eq {step : Step} {inUse : Option InUse} {entry : Entry}
    (took : step.Took inUse entry) {commits : List Commit} (found : entry.reply = .found commits) :
    ∃ used log, inUse = some used ∧ commits = commitsOf used.history.tags log := by
  cases took with
  | found same answer log =>
    cases found
    exact ⟨_, log, same, rfl⟩
  | opened | loaded | failed | notOpen => cases found

theorem Step.Took.later_eq {step : Step} {inUse : Option InUse} {entry : Entry}
    (took : step.Took inUse entry)
    (fails : entry.reply = .notOpen ∨ ∃ cause, entry.reply = .failed cause) :
    entry.later = inUse := by
  cases took with
  | opened | loaded | found =>
    rcases fails with closed | ⟨cause, fails⟩
    · cases closed
    · cases fails
  | failed | notOpen => rfl

/-- The tags in use are those of the list that was printed last. -/
def Told (entries : List Entry) (inUse : Option InUse) : Prop :=
  ∀ used ∈ inUse, used.history.tags = tagsOf (listing entries)

theorem Told.took {entries : List Entry} {inUse : Option InUse} (told : Told entries inUse)
    {step : Step} {entry : Entry} (took : step.Took inUse entry) :
    Told (entries ++ [entry]) entry.later := by
  intro used later
  rw [listing_concat]
  cases took with
  | opened | loaded =>
    cases later
    rfl
  | found | failed | notOpen => exact told used later

theorem Step.takeAll_append (inUse : Option InUse) (before rest : List Step) :
    takeAll inUse (before ++ rest) =
      takeAll inUse before ++ takeAll (inUseAfter inUse before) rest := by
  induction before generalizing inUse with
  | nil => rfl
  | cons step before inductionHypothesis =>
    rw [List.cons_append, takeAll, takeAll, inductionHypothesis, List.cons_append]
    rfl

theorem told_takeAll (steps : List Step) :
    Told (Step.takeAll none steps) (Step.inUseAfter none steps) := by
  induction steps using List.reverseRecOn with
  | nil =>
    intro used inUse
    cases inUse
  | append_singleton steps step inductionHypothesis =>
    have after : Step.inUseAfter none (steps ++ [step]) =
        (step.take (Step.inUseAfter none steps)).later := by
      rw [Step.inUseAfter, List.foldl_append]
      rfl
    rw [Step.takeAll_append, after]
    exact inductionHypothesis.took (step.took _)

/-- Whatever steps are taken and whatever git does at each of them: a commit that is found has the
name on the last line about it in the tag list in force, and no tag if there is no such line; the
tags in use are those of this list and of no earlier one; and a step that fails leaves in use what
was in use before it. -/
theorem releases_from_latest_tags (before rest : List Step) (step : Step) :
    let past := Step.takeAll none before
    let inUse := Step.inUseAfter none before
    let entry := step.take inUse
    Step.takeAll none (before ++ step :: rest) = past ++ entry :: Step.takeAll entry.later rest ∧
    (∀ commits, entry.reply = .found commits → ∀ commit ∈ commits,
      commit.tag = (releaseOf? (listing past) commit.hash).getD "") ∧
    (∀ used, entry.later = some used → ∀ hash, used.history.tags.find? hash =
      if hash = "" then none else releaseOf? (listing (past ++ [entry])) hash) ∧
    ((entry.reply = .notOpen ∨ ∃ cause, entry.reply = .failed cause) → entry.later = inUse) := by
  intro past inUse entry
  have told : Told past inUse := told_takeAll before
  have took : step.Took inUse entry := step.took inUse
  refine ⟨Step.takeAll_append none before (step :: rest), ?_, ?_, took.later_eq⟩
  · intro commits found commit member
    obtain ⟨used, log, same, rfl⟩ := took.commits_eq found
    obtain ⟨named, tag⟩ := mem_commitsOf member
    rw [tag, told used same, find?_tagsOf, if_neg named]
  · intro used later hash
    rw [told.took took used later, find?_tagsOf]

/-- A machine whose git knows a commit with two tags. -/
def taggedGit : String → Program := fun _ arguments =>
  if arguments.head? = some "for-each-ref" then
    .ended 0 (Text.Utf8.encode "tag\tv1\tabc\ntag\tv2\tabc\ncommit\tnightly\tabc\n".toList) []
  else if arguments.head? = some "log" then .ended 0 (Text.Utf8.encode "abc\x1fFirst\n".toList) []
  else .ended 0 [] []

/-- The last of two tags is shown, also after another look at the tags has failed. -/
theorem releases_from_latest_tags_failed_reload :
    let before : List Step := [⟨.open "repo", taggedGit⟩, ⟨.loadTags, taggedGit⟩,
      ⟨.loadTags, fun _ _ => .ended 1 [] []⟩]
    let step : Step := ⟨.commits "modules/a", taggedGit⟩
    (step.take (Step.inUseAfter none before)).reply = .found [⟨"abc", "First", "v2"⟩] ∧
      (releaseOf? (listing (Step.takeAll none before)) "abc").getD "" = "v2" := by
  intro before step
  have found : (step.take (Step.inUseAfter none before)).reply =
      .found [⟨"abc", "First", "v2"⟩] := by decide +kernel
  obtain ⟨-, tags, -⟩ := releases_from_latest_tags before [] step
  exact ⟨found, (tags _ found _ List.mem_cons_self).symm⟩

end TerraDoc.Git
