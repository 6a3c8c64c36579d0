import TerraDoc.Proofs.PathWalk

namespace TerraDoc.Files.FileSystem

open Node

variable {before after : FileSystem} {path folder : List Char} {place names : List String}

/-- Where the files with rules and the root of a repository are looked for from a folder. -/
def rulePaths : List (List String) :=
  [[".ignore"], [".gitignore"], [".git"], [".git", "info", "exclude"]]

theorem rulePaths_nonempty (looked : names ∈ rulePaths) : names ≠ [] := by
  rintro rfl
  exact absurd looked (by decide)

theorem rulePaths_named : ∀ names ∈ rulePaths, ∀ name ∈ names, Path.IsName name.toList := by
  decide

/-- A path leads to the same file, to a folder as before, or to neither. -/
structure ReadsAlike (before after : FileSystem) (path : List Char) : Prop where
  isFolder : after.isFolder path = before.isFolder path
  read : (after.read path).toOption = (before.read path).toOption

/-- The same is found from a place and behind its file `.git`. -/
structure RulesAlike (before after : FileSystem) (place : List String) : Prop where
  looks : ∀ names ∈ rulePaths,
    (after.lookAt? place names).map bare = (before.lookAt? place names).map bare
  links : ∀ path ∈ before.linkedPaths place, ReadsAlike before after path

/-- What the listing of a place reads is the same. -/
structure ListsAlike (before after : FileSystem) (place : List String) : Prop where
  here : after.here = before.here
  user : after.user = before.user
  own : ∀ path ∈ before.userPaths, ReadsAlike before after path
  rules : ∀ level ∈ levels place, RulesAlike before after level.place
  folder : after.root.HasFolder place ↔ before.root.HasFolder place

theorem ReadsAlike.fileAt_eq (alike : ReadsAlike before after path) :
    after.fileAt path = before.fileAt path := by
  have by_read (files : FileSystem) : files.fileAt path =
      (files.read path).toOption.elim (.error none) fun content => .ok ⟨path, content⟩ := by
    rw [fileAt]
    cases files.read path <;> rfl
  rw [by_read, by_read, alike.read]

namespace RulesAlike

variable (alike : RulesAlike before after place)

include alike

theorem hasGit_eq : after.hasGit place = before.hasGit place := by
  have present := congrArg Option.isSome (alike.looks [".git"] (by decide))
  rwa [Option.isSome_map, Option.isSome_map] at present

theorem fileIn_eq (looked : names ∈ rulePaths) :
    after.fileIn place names = before.fileIn place names := by
  have same := alike.looks names looked
  rw [fileIn, fileIn]
  cases found : before.lookAt? place names with
  | none =>
    rw [found, Option.map_none, Option.map_eq_none_iff] at same
    rw [same]
  | some node =>
    rw [found, Option.map_some, Option.map_eq_some_iff] at same
    obtain ⟨node', found', shape⟩ := same
    rw [found']
    obtain rfl | ⟨_, _, rfl, rfl⟩ := eq_or_folders shape <;> rfl

theorem gitFolder_eq : after.gitFolder place = before.gitFolder place := by
  rw [gitFolder, gitFolder, alike.fileIn_eq (by decide)]

theorem sharedFolder_eq (found : before.gitFolder place = .ok folder) :
    after.sharedFolder folder = before.sharedFolder folder := by
  have shared : ReadsAlike before after (sharedFile folder) := by
    apply alike.links
    rw [linkedPaths, found]
    exact List.mem_cons_self
  rw [sharedFolder, sharedFolder, shared.isFolder, shared.fileAt_eq]

theorem excludeFile_eq : after.excludeFile place = before.excludeFile place := by
  rw [excludeFile, excludeFile, alike.fileIn_eq (by decide), alike.fileIn_eq (by decide),
    alike.gitFolder_eq]
  split
  · cases found : before.gitFolder place with
    | error => rfl
    | ok folder =>
      rw [Except.ok_bind, Except.ok_bind, alike.sharedFolder_eq found]
      cases shared : before.sharedFolder folder with
      | error => rfl
      | ok common =>
        apply ReadsAlike.fileAt_eq
        apply alike.links
        rw [linkedPaths, found]
        dsimp only
        rw [shared]
        exact List.mem_cons_of_mem _ (List.mem_singleton_self _)
  · rfl

end RulesAlike

theorem findSome?_congr {α β : Type} {first second : α → Option β} {list : List α}
    (same : ∀ a ∈ list, first a = second a) : list.findSome? first = list.findSome? second := by
  induction list with
  | nil => rfl
  | cons a rest inductionHypothesis =>
    obtain ⟨here, others⟩ := List.forall_mem_cons.mp same
    rw [List.findSome?_cons, List.findSome?_cons, here, inductionHypothesis others]

theorem levelVerdict?_congr {source source' : List String → RuleSource} {levels : List Level}
    (same : ∀ level ∈ levels, source' level.place = source level.place) (name : String)
    (isFolder : Bool) :
    levelVerdict? source' levels name isFolder = levelVerdict? source levels name isFolder :=
  findSome?_congr fun level member => by rw [same level member]

theorem repositoryLevels_congr {all : List Level}
    (git : ∀ level ∈ all, after.hasGit level.place = before.hasGit level.place) :
    repositoryLevels after all = repositoryLevels before all := by
  have any : (all.any fun level => after.hasGit level.place) =
      all.any fun level => before.hasGit level.place := by
    rw [Bool.eq_iff_iff, List.any_eq_true, List.any_eq_true]
    exact exists_congr fun level => and_congr_right fun member => by rw [git level member]
  have inside : (all.takeWhile fun level => !after.hasGit level.place) =
      all.takeWhile fun level => !before.hasGit level.place := by
    clear any
    induction all with
    | nil => rfl
    | cons level rest inductionHypothesis =>
      obtain ⟨here, above⟩ := List.forall_mem_cons.mp git
      rw [List.takeWhile_cons, List.takeWhile_cons, here, inductionHypothesis above]
  rw [repositoryLevels, repositoryLevels, any, inside]

namespace ListsAlike

variable (alike : ListsAlike before after place)

include alike

theorem excludesFile?_eq : after.excludesFile? = before.excludesFile? := by
  rw [excludesFile?, excludesFile?, alike.user]
  congr 2
  apply findSome?_congr
  intro path member
  rw [(alike.own path (List.mem_append_left _ member)).read]

theorem userRules_eq : after.userRules = before.userRules := by
  rw [userRules, userRules, alike.excludesFile?_eq]
  cases found : before.excludesFile? with
  | none => rfl
  | some path =>
    have read := alike.own path (List.mem_append_right _ (by rw [found]; exact .head _))
    rw [Option.map_some, Option.map_some, read.fileAt_eq]

theorem entryVerdict?_eq (path : List Char) (name : String) (isFolder : Bool) :
    entryVerdict? after path place name isFolder =
      entryVerdict? before path place name isFolder := by
  have within : ∀ level ∈ repositoryLevels before (levels place),
      RulesAlike before after level.place := by
    intro level member
    apply alike.rules
    rw [repositoryLevels] at member
    split at member
    · exact List.mem_of_mem_take member
    · cases member
  have ignore : levelVerdict? (after.fileIn · [".ignore"]) (levels place) name isFolder =
      levelVerdict? (before.fileIn · [".ignore"]) (levels place) name isFolder :=
    levelVerdict?_congr (fun level member => (alike.rules level member).fileIn_eq (by decide)) _ _
  have gitignore :
      levelVerdict? (after.fileIn · [".gitignore"]) (repositoryLevels before (levels place)) name
          isFolder =
        levelVerdict? (before.fileIn · [".gitignore"]) (repositoryLevels before (levels place)) name
          isFolder :=
    levelVerdict?_congr (fun level member => (within level member).fileIn_eq (by decide)) _ _
  rw [entryVerdict?, entryVerdict?]
  dsimp only
  rw [repositoryLevels_congr fun level member => (alike.rules level member).hasGit_eq,
    ignore, gitignore, levelVerdict?_congr fun level member => (within level member).excludeFile_eq,
    alike.userRules_eq, alike.here]

theorem isListed_eq (path : List Char) (name : String) {node node' : Node}
    (same : node'.bare = node.bare) :
    isListed after path place (name, node') = isListed before path place (name, node) := by
  have kind : node'.isFolder = node.isFolder := by
    obtain rfl | ⟨_, _, rfl, rfl⟩ := eq_or_folders same <;> rfl
  rw [isListed, isListed, alike.entryVerdict?_eq, kind]

theorem listingProblems_eq : after.listingProblems place = before.listingProblems place := by
  have by_folder (node : Node) : (node.at? place).any Node.isFolder = true ↔
      node.HasFolder place := by
    rw [HasFolder]
    cases node.at? place with
    | none => simp
    | some found => cases found <;> simp [Node.isFolder]
  have kind : (after.root.at? place).any Node.isFolder =
      (before.root.at? place).any Node.isFolder := by
    rw [Bool.eq_iff_iff, by_folder, by_folder, alike.folder]
  rw [listingProblems, listingProblems, kind]
  congr 1
  apply List.flatMap_congr
  intro level member
  have rules := alike.rules level (List.mem_of_mem_drop (List.mem_reverse.mp member))
  rw [rules.fileIn_eq (by decide), rules.fileIn_eq (by decide), rules.excludeFile_eq]

end ListsAlike

end TerraDoc.Files.FileSystem
