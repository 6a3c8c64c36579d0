import TerraDoc.Proofs.ModuleRecord
import TerraDoc.Proofs.PathSights

/-!
Which files of a folder make the record of its module, and that the other entries of the folder do
not count: as long as nothing that is looked at on the way lies in one of them, they may come, go
and change.
-/

namespace TerraDoc

open Files Files.Node

theorem Dictionary.find?_filter_of_keep {α : Type} (entries : Dictionary α) (keep : String → Bool)
    {key : String} (kept : keep key = true) :
    Dictionary.find? key (entries.filter fun entry => keep entry.1) = entries.find? key := by
  induction entries with
  | nil => rfl
  | cons entry rest inductionHypothesis =>
    obtain ⟨first, value⟩ := entry
    rw [List.filter_cons]
    split
    · rw [find?, find?, List.lookup_cons, List.lookup_cons]
      split
      · rfl
      · exact inductionHypothesis
    · rename_i dropped
      have other : key ≠ first := by
        rintro rfl
        exact dropped kept
      rw [inductionHypothesis, find?, find?, List.lookup_cons, beq_false_of_ne other]

namespace Files

variable {root before after : Node} {place other names : List String} {name : String}

/-- A tree without some entries of a folder. -/
def Node.without (names : List String) : List String → Node → Node
  | [], folder entries => folder (entries.filter (·.1 ∉ names))
  | [], node => node
  | step :: rest, node =>
      match node.entries.find? step with
      | some child => folder (node.entries.insert step (without names rest child))
      | none => node

/-- Leaving out entries changes nothing but these. -/
theorem bare_at?_without (root : Node)
    (outside : ∀ name ∈ names, ¬ (place ++ [name]) <+: other) :
    ((root.without names place).at? other).map bare = (root.at? other).map bare := by
  induction place generalizing root other with
  | nil =>
    cases root with
    | file | link => rfl
    | folder entries =>
      rw [without]
      cases other with
      | nil => simp [bare]
      | cons first rest =>
        have kept : first ∉ names := by
          intro member
          exact outside first member (List.prefix_append [first] rest)
        rw [at?_cons, at?_cons, Node.entries, Node.entries,
          Dictionary.find?_filter_of_keep entries (· ∉ names) (by simpa using kept)]
  | cons step rest inductionHypothesis =>
    rw [without]
    split
    · rename_i child inside
      cases other with
      | nil =>
        cases root with
        | file | link => cases inside
        | folder entries => simp [bare]
      | cons first later =>
        rw [at?_cons, at?_cons, Node.entries]
        by_cases same : first = step
        · subst same
          rw [Dictionary.find?_insert_self, inside]
          apply inductionHypothesis
          intro name member below
          exact outside name member (List.cons_prefix_cons.mpr ⟨rfl, below⟩)
        · rw [Dictionary.find?_insert_of_ne _ _ same]
    · rfl

theorem alikeAt_of_without (same : after.without names place = before.without names place)
    (outside : ∀ name ∈ names, ¬ (place ++ [name]) <+: other) : AlikeAt before after other := by
  rw [AlikeAt, ← bare_at?_without after outside, same, bare_at?_without before outside]

namespace FileSystem

variable {settings : Settings} {files before after : FileSystem} {path : List Char}

/-- What is looked at along a path. -/
def pathSights (files : FileSystem) (path : List Char) : List (List String) :=
  sights files.root linkLimit (startOf files.here path) (Path.steps path)

/-- What is looked at for the rules of a folder. -/
def ruleSights (files : FileSystem) (place : List String) : List (List String) :=
  (rulePaths.flatMap fun names => sights files.root linkLimit place (names.map String.toList)) ++
    (files.linkedPaths place).flatMap files.pathSights

/-- What is looked at on the way to a folder, for rules there and above, and for those of the user. -/
def listingSights (files : FileSystem) (path : List Char) (place : List String) :
    List (List String) :=
  files.pathSights path ++ ((levels place).flatMap fun level => files.ruleSights level.place) ++
    files.userPaths.flatMap files.pathSights

theorem lookAt?_congr (alike : ∀ seen ∈ sights before.root linkLimit place
      (names.map String.toList), AlikeAt before.root after.root seen) :
    (after.lookAt? place names).map bare = (before.lookAt? place names).map bare := by
  rw [lookAt?, lookAt?, walk_congr alike]
  split
  · rename_i found walked
    exact alike found (mem_sights_of_walk walked)
  · rfl

/-- At a path the same is found in two file systems, apart from what a folder holds. -/
def FoundAlike (before after : FileSystem) (path : List Char) : Prop :=
  (after.node path).map bare = (before.node path).map bare

theorem place_congr (here : after.here = before.here)
    (alike : ∀ seen ∈ before.pathSights path, AlikeAt before.root after.root seen) :
    after.place path = before.place path := by
  rw [FileSystem.place, FileSystem.place, FileSystem.spot, FileSystem.spot, here]
  cases usable : checked path with
  | error cause => simp only [bind, Except.bind]
  | ok same =>
    obtain ⟨rfl, -, -⟩ := checked_eq_ok_iff.mp usable
    rw [Except.ok_bind, Except.ok_bind, walk_congr alike]

theorem foundAlike_of_sights (here : after.here = before.here)
    (alike : ∀ seen ∈ before.pathSights path, AlikeAt before.root after.root seen) :
    FoundAlike before after path := by
  rw [FoundAlike, FileSystem.node, FileSystem.node, place_congr here alike]
  cases found : before.place path with
  | error cause => rfl
  | ok place =>
    have there := alike place (mem_sights_of_walk (place_eq_ok_iff_walk.mp found).2.2)
    rw [Except.ok_bind, Except.ok_bind]
    cases standing : before.root.at? place with
    | none => rw [there.none_iff.mpr standing]
    | some node =>
      rw [AlikeAt, standing] at there
      obtain ⟨node', standing', shape⟩ := Option.map_eq_some_iff.mp there
      rw [standing']
      exact congrArg Except.ok shape

namespace FoundAlike

variable (alike : FoundAlike before after path)

include alike

theorem same_or_folders : after.node path = before.node path ∨
    ∃ entries entries', before.node path = .ok (folder entries) ∧
      after.node path = .ok (folder entries') := by
  rw [FoundAlike] at alike
  cases found : before.node path with
  | error cause =>
    rw [found] at alike
    exact .inl (Except.map_eq_error.mp alike)
  | ok node =>
    rw [found] at alike
    obtain ⟨node', found', shape⟩ := Except.map_eq_ok.mp alike
    obtain rfl | ⟨entries, entries', rfl, rfl⟩ := eq_or_folders shape
    · exact .inl found'
    · exact .inr ⟨entries, entries', rfl, found'⟩

theorem isFile_eq : after.isFile path = before.isFile path := by
  rw [FileSystem.isFile, FileSystem.isFile]
  obtain same | ⟨_, _, found, found'⟩ := alike.same_or_folders
  · rw [same]
  · rw [found, found']
    rfl

theorem isFolder_eq : after.isFolder path = before.isFolder path := by
  rw [FileSystem.isFolder, FileSystem.isFolder]
  obtain same | ⟨_, _, found, found'⟩ := alike.same_or_folders
  · rw [same]
  · rw [found, found']
    rfl

theorem read_eq : after.read path = before.read path := by
  rw [FileSystem.read, FileSystem.read]
  obtain same | ⟨_, _, found, found'⟩ := alike.same_or_folders
  · rw [same]
  · rw [found, found']
    rfl

theorem readText_eq : after.readText path = before.readText path := by
  rw [FileSystem.readText, FileSystem.readText, alike.read_eq]

theorem readsAlike : ReadsAlike before after path :=
  ⟨alike.isFolder_eq, by rw [alike.read_eq]⟩

end FoundAlike

end FileSystem

end Files

open FileSystem

namespace Module

variable {settings : Settings} {files before after : FileSystem} {path : List Char}
  {place names changed : List String} {name : String} {folder : Folder}

/-- An entry of a folder that counts: the listing shows it, it is called like a configuration file,
and it leads to a file. -/
def Counts (settings : Settings) (files : FileSystem) (path : List Char) (place : List String)
    (name : String) : Prop :=
  isInput path = false ∧ ∃ node, files.root.at? (place ++ [name]) = some node ∧
    isListed files path place (name, node) = true ∧ settings.isConfigFile name.toList = true ∧
    files.isFile (Path.join path name.toList) = true

/-- The names of the entries that count, in ascending order of their bytes. -/
structure ConfigNames (settings : Settings) (files : FileSystem) (path : List Char)
    (place names : List String) : Prop where
  ascending : names.Pairwise fun first second =>
    Text.Utf8.encode first.toList < Text.Utf8.encode second.toList
  mem_iff : ∀ name, name ∈ names ↔ Counts settings files path place name

/-- The paths of some entries of a folder. -/
def pathsOf (path : List Char) (names : List String) : List (List Char) :=
  names.map fun name => Path.join path name.toList

theorem ConfigNames.unique {other : List String}
    (first : ConfigNames settings before path place names)
    (second : ConfigNames settings after path place other)
    (same : ∀ name, Counts settings before path place name ↔
      Counts settings after path place name) : names = other := by
  have distinct {list : List String} (ascending : list.Pairwise fun first second =>
      Text.Utf8.encode first.toList < Text.Utf8.encode second.toList) : list.Nodup := by
    apply ascending.imp
    intro one two smaller equal
    rw [equal] at smaller
    exact List.lt_irrefl _ smaller
  have permuted := (List.perm_ext_iff_of_nodup (distinct first.ascending)
    (distinct second.ascending)).mpr fun name => by rw [first.mem_iff, second.mem_iff, same]
  exact permuted.eq_of_pairwise
    (fun _ _ _ _ smaller greater => absurd greater (List.lt_asymm smaller))
    first.ascending second.ascending

/-- The names of the entries that count. -/
def configNames (settings : Settings) (files : FileSystem) (path : List Char)
    (place : List String) : List String :=
  let counts (entry : String × Node) : Bool :=
    ((Path.fileName? (Path.join path entry.1.toList)).any settings.isConfigFile &&
      files.isFile (Path.join path entry.1.toList)) && isListed files path place entry
  if isInput path then []
  else ((((files.root.at? place).map Node.entries).getD []).filter counts).map Prod.fst

theorem configNames_spec (settings : Settings) (wellNamed : files.root.WellNamed)
    (orderly : files.root.Orderly) (path : List Char) (place : List String) :
    ConfigNames settings files path place (configNames settings files path place) := by
  have ordered := ordered_entriesAt orderly place
  rw [configNames]
  cases input : isInput path with
  | true => exact ⟨.nil, by simp [Counts, input]⟩
  | false =>
    rw [if_neg Bool.false_ne_true]
    constructor
    · simp only [Text.Utf8.encode_lt_iff]
      exact List.pairwise_map.mpr (ordered.filter _)
    · intro name
      rw [Dictionary.mem_keys_filter ordered, Counts, and_iff_right input]
      simp only [find?_entriesAt]
      apply exists_congr
      intro node
      apply and_congr_right
      intro there
      simp only [Path.fileName?_join path (named_of_at? wellNamed there), Option.any_some,
        Bool.and_eq_true]
      rw [and_comm]

theorem configFiles_eq (settings : Settings) (here : files.place path = .ok place)
    (sound : isInput path = true ∨ files.listingProblems place = []) :
    configFiles settings files path = .ok (pathsOf path (configNames settings files path place)) := by
  rw [configNames]
  cases input : isInput path with
  | true =>
    exact Except.bind_eq_ok.mpr ⟨[], list_eq_ok_iff.mpr (.inl ⟨input, rfl⟩), rfl⟩
  | false =>
    have sound := sound.resolve_left (by rw [input]; exact Bool.false_ne_true)
    exact Except.bind_eq_ok.mpr ⟨_, list_eq_ok_iff.mpr (.inr ⟨input, place, here, sound, rfl⟩),
      congrArg Except.ok (filter_shown path _ _ _)⟩

theorem configFiles_of_problems (settings : Settings) (here : files.place path = .ok place)
    (usual : isInput path = false) (problems : files.listingProblems place ≠ []) :
    configFiles settings files path = .error (.malformed (files.listingProblems place)) := by
  rw [configFiles, FileSystem.list, if_neg (by simp [usual]), here]
  cases found : files.listingProblems place with
  | nil => exact absurd found problems
  | cons problem rest => simp only [Except.mapError, Except.ok_bind, found]; rfl

theorem ConfigNames.single (config : ConfigNames settings files path place names)
    (wellNamed : files.root.WellNamed) : (pathsOf path names).Pairwise fun first second =>
      IsMain settings first → ¬ IsMain settings second := by
  rw [pathsOf, List.pairwise_map]
  apply config.ascending.imp_of_mem
  intro first second member member' smaller main main'
  have fileName {name : String} (member : name ∈ names) :
      Path.fileName? (Path.join path name.toList) = some name.toList := by
    obtain ⟨-, node, there, -⟩ := (config.mem_iff name).mp member
    exact Path.fileName?_join path (named_of_at? wellNamed there)
  rw [IsMain, fileName member] at main
  rw [IsMain, fileName member'] at main'
  rw [Option.some.inj (main.trans main'.symm)] at smaller
  exact List.lt_irrefl _ smaller

/-- An entry that may come, go and change: a folder, or one that the listing does not show or that
is not called like a configuration file. -/
def Aside (settings : Settings) (files : FileSystem) (path : List Char) (place : List String)
    (name : String) : Prop :=
  ∀ node, files.root.at? (place ++ [name]) = some node → node.isFolder = true ∨
    isListed files path place (name, node) = false ∨ settings.isConfigFile name.toList = false

/-- What is looked at behind the links that a folder shows as configuration files. -/
def linkSights (settings : Settings) (files : FileSystem) (path : List Char)
    (place : List String) : List (List String) :=
  (((files.root.at? place).map Node.entries).getD []).flatMap fun entry =>
    match entry with
    | (name, .link target) =>
        if isListed files path place (name, .link target) && settings.isConfigFile name.toList then
          files.pathSights (Path.join path name.toList)
        else []
    | _ => []

/-- Two file systems that differ only in entries of a folder that do not count. -/
structure OnlyAside (settings : Settings) (path : List Char) (place changed : List String)
    (before after : FileSystem) : Prop where
  here : after.here = before.here
  user : after.user = before.user
  rest : after.root.without changed place = before.root.without changed place
  aside : ∀ name ∈ changed,
    Aside settings before path place name ∧ Aside settings after path place name

/-- They do not differ either in what is looked at on the way to the folder, to the rules for its
listing, and along its links. -/
structure DifferAside (settings : Settings) (path : List Char) (place changed : List String)
    (before after : FileSystem) : Prop
    extends OnlyAside settings path place changed before after where
  apart : ∀ seen ∈ listingSights before path place ++ linkSights settings before path place,
    ∀ name ∈ changed, ¬ (place ++ [name]) <+: seen

theorem counts_iff {node : Node} (there : files.root.at? (place ++ [name]) = some node) :
    Counts settings files path place name ↔ isInput path = false ∧
      isListed files path place (name, node) = true ∧
      settings.isConfigFile name.toList = true ∧
      files.isFile (Path.join path name.toList) = true := by
  simp [Counts, there]

theorem Aside.not_counts (aside : Aside settings files path place name)
    (wellNamed : files.root.WellNamed) (here : files.place path = .ok place) :
    ¬ Counts settings files path place name := by
  intro counts
  obtain ⟨-, node, there, shown, config, file⟩ := counts
  rcases aside node there with folder | hidden | other
  · cases node with
    | file | link => cases folder
    | folder entries =>
      rw [FileSystem.isFile, node_join here (named_of_at? wellNamed there) there
        (folder_not_link entries)] at file
      split at file
      · rename_i found
        split at found <;> cases found
        cases file
      · cases file
  · rw [hidden] at shown
    cases shown
  · rw [other] at config
    cases config

namespace DifferAside

variable (differ : DifferAside settings path place changed before after)

include differ

theorem alikeAt_of_looked {seen : List String}
    (looked : seen ∈ listingSights before path place ++ linkSights settings before path place) :
    AlikeAt before.root after.root seen :=
  alikeAt_of_without differ.rest (differ.apart seen looked)

theorem alikeAt_of_path {seen : List String} (looked : seen ∈ before.pathSights path) :
    AlikeAt before.root after.root seen :=
  differ.alikeAt_of_looked
    (List.mem_append_left _ (List.mem_append_left _ (List.mem_append_left _ looked)))

theorem alikeAt_of_rules {level : Level} (member : level ∈ levels place) {seen : List String}
    (looked : seen ∈ before.ruleSights level.place) : AlikeAt before.root after.root seen :=
  differ.alikeAt_of_looked (List.mem_append_left _ (List.mem_append_left _
    (List.mem_append_right _ (List.mem_flatMap.mpr ⟨level, member, looked⟩))))

theorem alikeAt_of_own {own : List Char} (member : own ∈ before.userPaths) {seen : List String}
    (looked : seen ∈ before.pathSights own) : AlikeAt before.root after.root seen :=
  differ.alikeAt_of_looked (List.mem_append_left _
    (List.mem_append_right _ (List.mem_flatMap.mpr ⟨own, member, looked⟩)))

theorem place_eq (here : before.place path = .ok place) : after.place path = .ok place := by
  rw [place_congr differ.here fun seen => differ.alikeAt_of_path, here]

theorem listsAlike (here : before.place path = .ok place) : ListsAlike before after place where
  here := differ.here
  user := differ.user
  own := fun _ member =>
    (foundAlike_of_sights differ.here fun _ => differ.alikeAt_of_own member).readsAlike
  rules := fun _ member =>
    { looks := fun names looked => lookAt?_congr fun _ inside =>
        differ.alikeAt_of_rules member
          (List.mem_append_left _ (List.mem_flatMap.mpr ⟨names, looked, inside⟩))
      links := fun path linked =>
        (foundAlike_of_sights differ.here fun _ inside => differ.alikeAt_of_rules member
          (List.mem_append_right _ (List.mem_flatMap.mpr ⟨path, linked, inside⟩))).readsAlike }
  folder :=
    (differ.alikeAt_of_path (mem_sights_of_walk (place_eq_ok_iff_walk.mp here).2.2)).folder_iff

theorem alikeAt_of_unchanged (unchanged : name ∉ changed) :
    AlikeAt before.root after.root (place ++ [name]) := by
  apply alikeAt_of_without differ.rest
  intro other member below
  rw [List.prefix_append_right_inj] at below
  obtain ⟨rfl⟩ := List.singleton_prefix_cons_iff.mp below
  exact unchanged member

/-- An entry that did not change and that could count leads to the same as before. -/
theorem foundAlike (wellNamed : before.root.WellNamed) (here : before.place path = .ok place)
    (unchanged : name ∉ changed) {node : Node}
    (there : before.root.at? (place ++ [name]) = some node)
    (shown : isListed before path place (name, node) = true)
    (config : settings.isConfigFile name.toList = true) :
    FoundAlike before after (Path.join path name.toList) := by
  have alike := differ.alikeAt_of_unchanged unchanged
  have named := named_of_at? wellNamed there
  have here' := differ.place_eq here
  cases node with
  | file content =>
    rw [FoundAlike, node_join here named there (file_not_link content),
      node_join here' named (alike.file_iff.mpr there) (file_not_link content)]
  | folder entries =>
    obtain ⟨entries', there'⟩ := alike.folder_iff.mpr ⟨entries, there⟩
    rw [FoundAlike, node_join here named there (folder_not_link entries),
      node_join here' named there' (folder_not_link entries')]
    split <;> rfl
  | link target =>
    apply foundAlike_of_sights differ.here
    intro seen member
    apply differ.alikeAt_of_looked
    apply List.mem_append_right
    rw [← find?_entriesAt] at there
    refine List.mem_flatMap.mpr ⟨(name, .link target), Dictionary.mem_of_find? there, ?_⟩
    dsimp only
    rw [shown, config]
    exact member

/-- The same entries count. -/
theorem counts_iff (wellNamed : before.root.WellNamed) (wellNamed' : after.root.WellNamed)
    (here : before.place path = .ok place) (name : String) :
    Counts settings after path place name ↔ Counts settings before path place name := by
  by_cases member : name ∈ changed
  · obtain ⟨aside, aside'⟩ := differ.aside name member
    exact iff_of_false (aside'.not_counts wellNamed' (differ.place_eq here))
      (aside.not_counts wellNamed here)
  · have alike := differ.alikeAt_of_unchanged member
    cases there : before.root.at? (place ++ [name]) with
    | none => simp [Counts, there, alike.none_iff.mpr there]
    | some node =>
      rw [AlikeAt, there] at alike
      obtain ⟨node', there', shape⟩ := Option.map_eq_some_iff.mp alike
      rw [Module.counts_iff there, Module.counts_iff there',
        (differ.listsAlike here).isListed_eq path name shape]
      apply and_congr_right
      intro _
      apply and_congr_right
      intro shown
      apply and_congr_right
      intro config
      rw [(differ.foundAlike wellNamed here member there shown config).isFile_eq]

theorem readText_eq (wellNamed : before.root.WellNamed) (here : before.place path = .ok place)
    (counts : Counts settings before path place name) :
    after.readText (Path.join path name.toList) =
      before.readText (Path.join path name.toList) := by
  have unchanged : name ∉ changed := fun member =>
    (differ.aside name member).1.not_counts wellNamed here counts
  obtain ⟨-, node, there, shown, config, -⟩ := counts
  exact (differ.foundAlike wellNamed here unchanged there shown config).readText_eq

end DifferAside

/-- Entries that do not count change nothing in what becomes of a module. -/
theorem assemble_of_differAside (wellNamed : before.root.WellNamed)
    (wellNamed' : after.root.WellNamed) (orderly : before.root.Orderly)
    (orderly' : after.root.Orderly) (here : before.place folder.path = .ok place)
    (differ : DifferAside settings folder.path place changed before after) :
    assemble settings after folder = assemble settings before folder := by
  have here' := differ.place_eq here
  have problems := (differ.listsAlike here).listingProblems_eq
  by_cases sound : isInput folder.path = true ∨ before.listingProblems place = []
  · have config := configNames_spec settings wellNamed orderly folder.path place
    have config' := configNames_spec settings wellNamed' orderly' folder.path place
    have same := config'.unique config (differ.counts_iff wellNamed wellNamed' here)
    rw [assemble, assemble, configFiles_eq settings here sound,
      configFiles_eq settings here' (by rwa [problems]), same]
    apply foldlM_of_readText
    intro path member
    obtain ⟨name, inside, rfl⟩ := List.mem_map.mp member
    exact differ.readText_eq wellNamed here ((config.mem_iff name).mp inside)
  · rw [not_or, Bool.not_eq_true] at sound
    rw [assemble, assemble, configFiles_of_problems settings here sound.1 sound.2,
      configFiles_of_problems settings here' sound.1 (by rw [problems]; exact sound.2), problems]
    rfl

instance (settings : Settings) (files : FileSystem) (path : List Char) (place : List String)
    (name : String) : Decidable (Aside settings files path place name) :=
  decidable_of_iff (∀ node ∈ files.root.at? (place ++ [name]), node.isFolder = true ∨
    isListed files path place (name, node) = false ∨ settings.isConfigFile name.toList = false) .rfl

instance (settings : Settings) (path : List Char) (place changed : List String)
    (before after : FileSystem) : Decidable (OnlyAside settings path place changed before after) :=
  decidable_of_iff (after.here = before.here ∧ after.user = before.user ∧
    after.root.without changed place = before.root.without changed place ∧
    ∀ name ∈ changed, Aside settings before path place name ∧ Aside settings after path place name)
    ⟨fun parts => ⟨parts.1, parts.2.1, parts.2.2.1, parts.2.2.2⟩,
      fun only => ⟨only.here, only.user, only.rest, only.aside⟩⟩

instance (settings : Settings) (path : List Char) (place changed : List String)
    (before after : FileSystem) : Decidable (DifferAside settings path place changed before after) :=
  decidable_of_iff (OnlyAside settings path place changed before after ∧
    ∀ seen ∈ listingSights before path place ++ linkSights settings before path place,
      ∀ name ∈ changed, ¬ (place ++ [name]) <+: seen)
    ⟨fun parts => ⟨parts.1, parts.2⟩, fun differ => ⟨differ.toOnlyAside, differ.apart⟩⟩

mutual

/-- Whether every folder of a tree calls its entries by names, in the order of these. -/
def decideTidy : (node : Node) → Decidable (node.WellNamed ∧ node.Orderly)
  | .file content => isTrue ⟨.file content, .file content⟩
  | .link target => isTrue ⟨.link target, .link target⟩
  | .folder entries =>
      have := decideTidyEntries entries
      have : Decidable (Dictionary.Ordered entries) :=
        inferInstanceAs (Decidable (entries.Pairwise fun first second => first.1 < second.1))
      decidable_of_iff ((∀ entry ∈ entries, Path.IsName entry.1.toList) ∧
          Dictionary.Ordered entries ∧ ∀ entry ∈ entries, entry.2.WellNamed ∧ entry.2.Orderly)
        ⟨fun parts => ⟨.folder parts.1 fun entry member => (parts.2.2 entry member).1,
            .folder parts.2.1 fun entry member => (parts.2.2 entry member).2⟩,
          fun tidy => ⟨fun _ member => (tidy.1.entries member).1, tidy.2.entries.1,
            fun entry member => ⟨(tidy.1.entries member).2, tidy.2.entries.2 entry member⟩⟩⟩

def decideTidyEntries : (entries : List (String × Node)) →
    Decidable (∀ entry ∈ entries, entry.2.WellNamed ∧ entry.2.Orderly)
  | [] => isTrue (List.forall_mem_nil _)
  | (_, node) :: rest =>
      have := decideTidy node
      have := decideTidyEntries rest
      decidable_of_iff ((node.WellNamed ∧ node.Orderly) ∧
        ∀ entry ∈ rest, entry.2.WellNamed ∧ entry.2.Orderly) (by rw [List.forall_mem_cons])

end

instance (node : Node) : Decidable (node.WellNamed ∧ node.Orderly) :=
  decideTidy node

/-- A file that declares one variable. -/
def variableFile (name : String) : Node :=
  .file (Text.Utf8.encode ("variable \"" ++ name ++ "\" \x7b\x7d\n").toList)

/-- A module with a link to a file that it shares, and with other entries. -/
def sharingTree (others : List (String × Node)) : FileSystem :=
  ⟨.folder [("m", .folder (Dictionary.ofList
      ([("a.tf", variableFile "x"), ("b.tf", .link "../shared/b.tf".toList)] ++ others))),
    ("shared", .folder [("b.tf", variableFile "y")])], []⟩

def sharingBefore : FileSystem :=
  sharingTree [(".draft.tf", .file []), ("notes.md", .file []), ("old", .folder [])]

def sharingAfter : FileSystem :=
  sharingTree [("modules", .folder [("c.tf", variableFile "z")]), ("notes.md", variableFile "w")]

/-- A module with an ignore file that counts in a repository alone. -/
def ruledTree (others : List (String × Node)) : FileSystem :=
  ⟨.folder [("m", .folder (Dictionary.ofList
    ([(".gitignore", .file (Text.Utf8.encode "a.tf\n".toList)), ("a.tf", variableFile "x")] ++
      others)))], []⟩

/-- A module with a link into one of its folders. -/
def linkedTree (others : List (String × Node)) : FileSystem :=
  ⟨.folder [("m", .folder (Dictionary.ofList
    ([("a.tf", .link "sub/a.tf".toList), ("b.tf", variableFile "y")] ++ others)))], []⟩

/-- A module below an ignore file with a malformed rule. -/
def malformedTree : FileSystem :=
  ⟨.folder [(".ignore", .file (Text.Utf8.encode "\x7b\n".toList)),
    ("m", .folder [("a.tf", variableFile "x")])], []⟩

end Module

end TerraDoc
