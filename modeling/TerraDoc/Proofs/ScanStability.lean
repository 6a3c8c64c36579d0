import TerraDoc.Proofs.ListingReads
import TerraDoc.Proofs.WrittenFiles

namespace TerraDoc

open Files Files.Node

namespace Files

variable {root : Node} {place names : List String}

/-- Names lead to what is there. -/
theorem leads_names (ordinary : ∀ name ∈ names, Path.IsName name.toList)
    (there : (root.at? (place ++ names)).isSome) :
    Leads root place (names.map String.toList) (place ++ names) := by
  induction names generalizing place with
  | nil =>
    rw [List.append_nil] at there ⊢
    exact .arrive there
  | cons name rest inductionHypothesis =>
    have named := ordinary name List.mem_cons_self
    have entry : stepTo place name.toList = place ++ [name] := by
      rw [stepTo, if_neg named.here, if_neg named.up, String.ofList_toList]
    have split : place ++ name :: rest = place ++ [name] ++ rest := by simp
    rw [split] at there ⊢
    have next : (root.at? (place ++ [name])).isSome := by
      rw [at?_append] at there
      exact Option.isSome_of_isSome_bind there
    rw [List.map_cons]
    apply Leads.step (hasFolder_of_isSome next)
    · rwa [entry]
    · rw [entry]
      exact inductionHypothesis (fun other member =>
        ordinary other (List.mem_cons_of_mem _ member)) there

theorem find?_entriesAt (root : Node) (place : List String) (name : String) :
    Dictionary.find? name (((root.at? place).map Node.entries).getD []) =
      root.at? (place ++ [name]) := by
  rw [at?_append]
  cases root.at? place with
  | none => rfl
  | some node => exact (at?_singleton node name).symm

theorem filter_shown (path : List Char) (entries : Dictionary Node) (shows : String × Node → Bool)
    (keep : List Char → Bool) :
    ((entries.filter shows).map fun entry => Path.join path entry.1.toList).filter keep =
      ((entries.filter fun entry => keep (Path.join path entry.1.toList) && shows entry).map
        Prod.fst).map fun name => Path.join path name.toList := by
  rw [List.filter_map, List.filter_filter, List.map_map]
  rfl

theorem named_of_at? (wellNamed : root.WellNamed) {name : String} {node : Node}
    (there : root.at? (place ++ [name]) = some node) : Path.IsName name.toList := by
  rw [at?_append] at there
  obtain ⟨above, here, inside⟩ := Option.bind_eq_some_iff.mp there
  rw [at?_singleton] at inside
  exact ((wellNamed.at? here).entries (Dictionary.mem_of_find? inside)).1

theorem ordered_entriesAt (orderly : root.Orderly) (place : List String) :
    Dictionary.Ordered (((root.at? place).map Node.entries).getD []) := by
  cases found : root.at? place with
  | none => exact .nil
  | some node => exact (orderly.at? found).entries.1

namespace FileSystem

variable {settings : Settings} {files before after : FileSystem} {places : List (List String)}
  {path : List Char}

theorem lookAt?_eq (free : files.root.LinkFree) (nonempty : names ≠ [])
    (ordinary : ∀ name ∈ names, Path.IsName name.toList) :
    files.lookAt? place names = files.root.at? (place ++ names) := by
  have steps : names.map String.toList ≠ [] := by simpa using nonempty
  have said (found : List String)
      (leads : Leads files.root place (names.map String.toList) found) :
      found = place ++ names := by
    rw [leads.eq_foldl, foldl_names (List.forall_mem_map.mpr ordinary), List.map_map]
    simp [Function.comp_def]
  rw [lookAt?]
  split
  · rename_i found walked
    rw [said found ((walk_eq_ok_iff free steps).mp walked).1]
  · rename_i missed
    symm
    rw [Option.eq_none_iff_forall_ne_some]
    intro node there
    have present : (files.root.at? (place ++ names)).isSome := by rw [there]; rfl
    exact missed _ ((walk_eq_ok_iff free steps).mpr ⟨leads_names ordinary present, present⟩)

theorem isFolder_iff (free : files.root.LinkFree) :
    files.isFolder path = true ↔ ∃ place, files.Finds path place ∧ files.root.HasFolder place := by
  rw [FileSystem.isFolder]
  constructor
  · intro folder
    split at folder
    · rename_i node found
      obtain ⟨place, finds, there⟩ := (node_eq_ok_iff free).mp found
      cases node with
      | folder entries => exact ⟨place, finds, entries, there⟩
      | file | link => cases folder
    · cases folder
  · intro parts
    obtain ⟨place, finds, entries, there⟩ := parts
    rw [(node_eq_ok_iff free).mpr ⟨place, finds, there⟩]
    rfl

theorem isFile_iff (free : files.root.LinkFree) :
    files.isFile path = true ↔ ∃ content, files.read path = .ok content := by
  rw [FileSystem.isFile]
  constructor
  · intro file
    split at file
    · rename_i node found
      obtain ⟨place, finds, there⟩ := (node_eq_ok_iff free).mp found
      cases node with
      | file content => exact ⟨content, (read_eq_ok_iff free).mpr ⟨place, finds, there⟩⟩
      | folder | link => cases file
    · cases file
  · intro parts
    obtain ⟨content, found⟩ := parts
    rw [(node_eq_ok_iff free).mpr ((read_eq_ok_iff free).mp found)]
    rfl

/-- A place where rules may be read, or what leads to such a place: the exclude file of a repository,
a git configuration of the user, the ignore file of the user, and what the file `.git` of a work tree
leads to. -/
inductive RulePlace (files : FileSystem) : List String → Prop where
  | exclude (folder : List String) : RulePlace files (folder ++ [".git", "info", "exclude"])
  | own {path : List Char} (member : path ∈ files.userPaths) :
      RulePlace files (files.destination path)
  | linked {path : List Char} {folder : List String} (member : path ∈ files.linkedPaths folder) :
      RulePlace files (files.destination path)

/-- A place that a scan looks at only as an entry to pass over: its name is not hidden, it is not
that of a configuration file, and no rules are read because of it. -/
structure Unread (settings : Settings) (files : FileSystem) (place : List String) : Prop where
  named : ∀ name ∈ place.getLast?, Path.IsName name.toList
  shown : ∀ name ∈ place.getLast?, name.toList.head? ≠ some '.'
  other : ∀ name ∈ place.getLast?, settings.isConfigFile name.toList = false
  apart : ¬ RulePlace files place

/-- Files were written in a tree, and nothing that a scan would read. -/
structure Stable (settings : Settings) (places : List (List String)) (before after : FileSystem) :
    Prop where
  free : before.root.LinkFree
  here : after.here = before.here
  user : after.user = before.user
  filled : Filled places before.root after.root
  unread : ∀ place ∈ places, Unread settings before place

namespace Stable

theorem isFolder_eq (stable : Stable settings places before after) (path : List Char) :
    after.isFolder path = before.isFolder path := by
  rw [Bool.eq_iff_iff, isFolder_iff stable.free, isFolder_iff (stable.filled.linkFree stable.free)]
  apply exists_congr
  intro place
  rw [finds_iff_of_filled stable.filled stable.here, stable.filled.folder_iff]

theorem lookAt?_bare (stable : Stable settings places before after) (nonempty : names ≠ [])
    (ordinary : ∀ name ∈ names, Path.IsName name.toList) (apart : place ++ names ∉ places) :
    (after.lookAt? place names).map bare = (before.lookAt? place names).map bare := by
  rw [lookAt?_eq stable.free nonempty ordinary,
    lookAt?_eq (stable.filled.linkFree stable.free) nonempty ordinary]
  exact stable.filled.others _ apart

theorem apart_of_rulePaths (stable : Stable settings places before after)
    (looked : names ∈ rulePaths) : place ++ names ∉ places := by
  intro written
  have hidden (name : String) (last : names.getLast? = some name) :
      name.toList.head? ≠ some '.' := by
    apply (stable.unread _ written).shown
    rw [List.getLast?_append, last]
    rfl
  simp only [rulePaths, List.mem_cons, List.not_mem_nil, or_false] at looked
  rcases looked with rfl | rfl | rfl | rfl
  · exact hidden ".ignore" rfl (by decide)
  · exact hidden ".gitignore" rfl (by decide)
  · exact hidden ".git" rfl (by decide)
  · exact (stable.unread _ written).apart (.exclude place)

theorem readsAlike (stable : Stable settings places before after)
    (rules : RulePlace before (before.destination path)) : ReadsAlike before after path where
  isFolder := stable.isFolder_eq path
  read := read_of_filled stable.free stable.filled stable.here fun written =>
    (stable.unread _ written).apart rules

theorem listsAlike (stable : Stable settings places before after) (place : List String) :
    ListsAlike before after place where
  here := stable.here
  user := stable.user
  own := fun _ member => stable.readsAlike (.own member)
  rules := fun _ _ =>
    { looks := fun names looked => stable.lookAt?_bare (rulePaths_nonempty looked)
        (rulePaths_named names looked) (stable.apart_of_rulePaths looked)
      links := fun _ member => stable.readsAlike (.linked member) }
  folder := stable.filled.folder_iff

theorem place_eq (stable : Stable settings places before after)
    (found : before.place path = .ok place) : after.place path = .ok place := by
  obtain ⟨finds, there⟩ := (place_eq_ok_iff stable.free).mp found
  exact (place_eq_ok_iff (stable.filled.linkFree stable.free)).mpr
    ⟨(finds_iff_of_filled stable.filled stable.here).mpr finds, stable.filled.isSome there⟩

/-- Where nothing was written, an entry is listed if it was. -/
theorem listed_iff (stable : Stable settings places before after) (path : List Char)
    {name : String} (apart : place ++ [name] ∉ places) :
    (∃ node, after.root.at? (place ++ [name]) = some node ∧
        isListed after path place (name, node) = true) ↔
      ∃ node, before.root.at? (place ++ [name]) = some node ∧
        isListed before path place (name, node) = true := by
  have same := stable.filled.others _ apart
  constructor
  · intro shown
    obtain ⟨node', there', shown⟩ := shown
    rw [there'] at same
    obtain ⟨node, there, shape⟩ := Option.map_eq_some_iff.mp same.symm
    rw [(stable.listsAlike place).isListed_eq path name shape.symm] at shown
    exact ⟨node, there, shown⟩
  · intro shown
    obtain ⟨node, there, shown⟩ := shown
    rw [there] at same
    obtain ⟨node', there', shape⟩ := Option.map_eq_some_iff.mp same
    rw [← (stable.listsAlike place).isListed_eq path name shape] at shown
    exact ⟨node', there', shown⟩

/-- A listing that is looked through for entries that were not written gives the same. -/
theorem list_filter (stable : Stable settings places before after)
    (wellNamed : before.root.WellNamed) (orderly : before.root.Orderly)
    (orderly' : after.root.Orderly) {paths : List (List Char)}
    (listed : before.list path = .ok paths) (keep keep' : List Char → Bool)
    (agree : ∀ name, Path.IsName name →
      keep' (Path.join path name) = keep (Path.join path name))
    (silent : ∀ name, Path.IsName name →
      before.destination (Path.join path name) ∈ places → keep (Path.join path name) = false) :
    ∃ paths', after.list path = .ok paths' ∧ paths'.filter keep' = paths.filter keep := by
  rcases list_eq_ok_iff.mp listed with ⟨input, rfl⟩ | ⟨usual, place, here, sound, rfl⟩
  · exact ⟨[], list_eq_ok_iff.mpr (.inl ⟨input, rfl⟩), rfl⟩
  obtain ⟨finds, -⟩ := (place_eq_ok_iff stable.free).mp here
  rw [← (stable.listsAlike place).listingProblems_eq] at sound
  refine ⟨_, list_eq_ok_iff.mpr (.inr ⟨usual, place, stable.place_eq here, sound, rfl⟩), ?_⟩
  refine (filter_shown _ _ _ _).trans (Eq.trans ?_ (filter_shown _ _ _ _).symm)
  congr 1
  apply Dictionary.keys_filter_eq (ordered_entriesAt orderly' place) (ordered_entriesAt orderly place)
  intro name
  rw [find?_entriesAt, find?_entriesAt]
  dsimp only
  by_cases written : place ++ [name] ∈ places
  · have ordinary := (stable.unread _ written).named name (by simp)
    have passed : keep (Path.join path name.toList) = false := by
      apply silent name.toList ordinary
      rwa [destination_join before path ordinary.plain, ordinary.splitOn_eq, List.map_singleton,
        String.ofList_toList, ← finds.eq_destination]
    rw [agree name.toList ordinary, passed]
    simp
  · simp only [Bool.and_eq_true, and_left_comm, exists_and_left]
    rw [stable.listed_iff path written]
    apply and_congr_left
    intro shown
    obtain ⟨node, there, -⟩ := shown
    rw [agree name.toList (named_of_at? wellNamed there)]

theorem isFolder_of_written (stable : Stable settings places before after)
    (written : before.destination path ∈ places) : before.isFolder path = false := by
  rw [← Bool.not_eq_true, isFolder_iff stable.free]
  intro folder
  obtain ⟨place, finds, entries, there⟩ := folder
  rw [← finds.eq_destination] at written
  cases (stable.filled.files place written).1 _ there

theorem apart_of_config (stable : Stable settings places before after) (folder : List Char)
    {name : List Char} (ordinary : Path.IsName name) (config : settings.isConfigFile name = true) :
    before.destination (Path.join folder name) ∉ places := by
  rw [destination_join before folder ordinary.plain, ordinary.splitOn_eq, List.map_singleton]
  intro written
  have other := (stable.unread _ written).other (String.ofList name) (by simp)
  rw [String.toList_ofList, config] at other
  cases other

theorem isFile_eq (stable : Stable settings places before after)
    (apart : before.destination path ∉ places) : after.isFile path = before.isFile path := by
  have same := read_of_filled stable.free stable.filled stable.here apart
  rw [Bool.eq_iff_iff, isFile_iff stable.free, isFile_iff (stable.filled.linkFree stable.free)]
  apply exists_congr
  intro content
  rw [← Except.toOption_eq_some, ← Except.toOption_eq_some, same]

theorem readText_eq (stable : Stable settings places before after)
    (apart : before.destination path ∉ places) (file : before.isFile path = true) :
    after.readText path = before.readText path := by
  obtain ⟨content, found⟩ := (isFile_iff stable.free).mp file
  have same := read_of_filled stable.free stable.filled stable.here apart
  rw [found] at same
  rw [readText, readText, found, Except.toOption_eq_some.mp same]

end Stable

end FileSystem

end Files

variable {settings : Settings} {before after : FileSystem} {places : List (List String)}
  {repository : List Char} {folders : List Module.Folder} {history : HistorySource}
  {catalogue : Catalogue}

namespace Module

theorem discover_of_stable (stable : FileSystem.Stable settings places before after)
    (wellNamed : before.root.WellNamed) (orderly : before.root.Orderly)
    (orderly' : after.root.Orderly) {modulesDir : List Char}
    (found : discover before repository modulesDir = .ok folders) :
    discover after repository modulesDir = .ok folders := by
  obtain ⟨node, there, found⟩ := Except.bind_eq_ok.mp found
  obtain ⟨paths, listed, found⟩ := Except.bind_eq_ok.mp found
  cases found
  obtain ⟨place, finds, there⟩ := (FileSystem.node_eq_ok_iff stable.free).mp there
  have still : (after.root.at? place).isSome := stable.filled.isSome (by rw [there]; rfl)
  obtain ⟨node', there'⟩ := Option.isSome_iff_exists.mp still
  have free' := stable.filled.linkFree stable.free
  obtain ⟨paths', listed', same⟩ := stable.list_filter wellNamed orderly orderly' listed
    before.isFolder after.isFolder (fun name _ => stable.isFolder_eq (Path.join _ name))
    fun name _ => stable.isFolder_of_written
  refine Except.bind_eq_ok.mpr ⟨node', ?_, Except.bind_eq_ok.mpr ⟨paths', listed', ?_⟩⟩
  · exact (FileSystem.node_eq_ok_iff free').mpr
      ⟨place, (FileSystem.finds_iff_of_filled stable.filled stable.here).mpr finds, there'⟩
  · rw [same]
    rfl

theorem configFiles_of_stable (stable : FileSystem.Stable settings places before after)
    (wellNamed : before.root.WellNamed) (orderly : before.root.Orderly)
    (orderly' : after.root.Orderly) {folder : List Char} {paths : List (List Char)}
    (found : configFiles settings before folder = .ok paths) :
    configFiles settings after folder = .ok paths := by
  obtain ⟨listing, listed, found⟩ := Except.bind_eq_ok.mp found
  cases found
  have config (files : FileSystem) {name : List Char} (ordinary : Path.IsName name) :
      ((Path.fileName? (Path.join folder name)).any settings.isConfigFile &&
        files.isFile (Path.join folder name)) =
      (settings.isConfigFile name && files.isFile (Path.join folder name)) := by
    rw [Path.fileName?_join folder ordinary, Option.any_some]
  obtain ⟨listing', listed', same⟩ := stable.list_filter wellNamed orderly orderly' listed
    (fun path => (Path.fileName? path).any settings.isConfigFile && before.isFile path)
    (fun path => (Path.fileName? path).any settings.isConfigFile && after.isFile path)
    (by
      intro name ordinary
      rw [config after ordinary, config before ordinary]
      cases wanted : settings.isConfigFile name with
      | false => rfl
      | true => rw [stable.isFile_eq (stable.apart_of_config folder ordinary wanted)])
    (by
      intro name ordinary written
      rw [config before ordinary]
      cases wanted : settings.isConfigFile name with
      | false => rfl
      | true => exact absurd written (stable.apart_of_config folder ordinary wanted))
  exact Except.bind_eq_ok.mpr ⟨listing', listed', by rw [same]; rfl⟩

theorem mem_configFiles (wellNamed : before.root.WellNamed) {folder : List Char}
    {paths : List (List Char)} (found : configFiles settings before folder = .ok paths)
    {path : List Char} (member : path ∈ paths) :
    before.isFile path = true ∧ ∃ name, Path.IsName name ∧ path = Path.join folder name ∧
      settings.isConfigFile name = true := by
  obtain ⟨listing, listed, found⟩ := Except.bind_eq_ok.mp found
  cases found
  obtain ⟨inside, kept⟩ := List.mem_filter.mp member
  obtain ⟨name, ordinary, rfl⟩ := mem_list wellNamed listed inside
  dsimp only at kept
  rw [Bool.and_eq_true, Path.fileName?_join folder ordinary, Option.any_some] at kept
  exact ⟨kept.2, name, ordinary, rfl, kept.1⟩

theorem foldlM_of_readText {paths : List (List Char)}
    (same : ∀ path ∈ paths, after.readText path = before.readText path) (record : Record) :
    paths.foldlM (Record.addFile settings after) record =
      paths.foldlM (Record.addFile settings before) record := by
  induction paths generalizing record with
  | nil => rfl
  | cons path rest inductionHypothesis =>
    obtain ⟨here, others⟩ := List.forall_mem_cons.mp same
    have first : record.addFile settings after path = record.addFile settings before path := by
      rw [Record.addFile, Record.addFile, readConfig, readConfig, here]
    rw [List.foldlM_cons, List.foldlM_cons, first]
    exact bind_congr fun record => inductionHypothesis others record

theorem assemble_of_stable (stable : FileSystem.Stable settings places before after)
    (wellNamed : before.root.WellNamed) (orderly : before.root.Orderly)
    (orderly' : after.root.Orderly) {folder : Folder} {record : Record}
    (assembled : assemble settings before folder = .ok record) :
    assemble settings after folder = .ok record := by
  obtain ⟨paths, found, assembled⟩ := Except.bind_eq_ok.mp assembled
  have here := Except.mapError_eq_ok.mp found
  have there := configFiles_of_stable stable wellNamed orderly orderly' here
  refine Except.bind_eq_ok.mpr ⟨paths, Except.mapError_eq_ok.mpr there, ?_⟩
  rw [foldlM_of_readText]
  · exact assembled
  · intro path member
    obtain ⟨file, name, ordinary, rfl, config⟩ := mem_configFiles wellNamed here member
    exact stable.readText_eq (stable.apart_of_config folder.path ordinary config) file

end Module

theorem Scan.run_of_stable (stable : FileSystem.Stable settings places before after)
    (wellNamed : before.root.WellNamed) (orderly : before.root.Orderly)
    (orderly' : after.root.Orderly)
    (ran : Scan.run settings before repository history = .ok catalogue) :
    Scan.run settings after repository history = .ok catalogue := by
  obtain ⟨folders, found, -⟩ := Except.bind_eq_ok.mp ran
  have here := Except.mapError_eq_ok.mp found
  have there := Module.discover_of_stable stable wellNamed orderly orderly' here
  rw [run_eq found, Except.bind_eq_ok] at ran
  obtain ⟨modules, each, same⟩ := ran
  rw [run_eq (Except.mapError_eq_ok.mpr there)]
  refine Except.bind_eq_ok.mpr ⟨modules, ?_, same⟩
  rw [Except.mapM_eq_ok_iff] at each ⊢
  apply each.imp
  intro folder entry keyed
  rw [keyed_eq_ok_iff, document_eq_ok_iff] at keyed ⊢
  exact ⟨keyed.1, Module.assemble_of_stable stable wellNamed orderly orderly' keyed.2.1, keyed.2.2⟩

end TerraDoc
