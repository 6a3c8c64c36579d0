import Mathlib.Data.List.Forall2
import TerraDoc.Proofs.ByteOrder
import TerraDoc.Proofs.ModulePlaces

/-!
Scanning many modules is scanning each of them alone, in whatever order that is done: every result
goes to the slot of its folder, and the slots are collected in the order of the names.
-/

namespace Except

variable {ε α β : Type}

/-- The first step that fails decides how all fail. -/
theorem mapM_eq_error_iff {f : α → Except ε β} {list : List α} {cause : ε} :
    list.mapM f = .error cause ↔
      ∃ before a after, list = before ++ a :: after ∧ (∀ b ∈ before, ∃ result, f b = .ok result) ∧
        f a = .error cause := by
  induction list with
  | nil => simp [pure, Except.pure]
  | cons a rest inductionHypothesis =>
    rw [List.mapM_cons, bind_eq_error]
    constructor
    · intro fails
      rcases fails with here | ⟨result, here, later⟩
      · exact ⟨[], a, rest, rfl, by simp, here⟩
      · rcases bind_eq_error.mp later with later | ⟨others, -, none⟩
        · obtain ⟨before, other, after, split, succeed, fails⟩ := inductionHypothesis.mp later
          refine ⟨a :: before, other, after, by rw [split, List.cons_append], ?_, fails⟩
          intro b member
          rcases List.mem_cons.mp member with rfl | member
          · exact ⟨result, here⟩
          · exact succeed b member
        · cases none
    · intro split
      obtain ⟨before, other, after, split, succeed, fails⟩ := split
      cases before with
      | nil =>
        obtain ⟨rfl, rfl⟩ := List.cons.inj split
        exact .inl fails
      | cons first before =>
        obtain ⟨rfl, later⟩ := List.cons.inj split
        obtain ⟨result, here⟩ := succeed a List.mem_cons_self
        refine .inr ⟨result, here, bind_eq_error.mpr (.inl (inductionHypothesis.mpr ?_))⟩
        exact ⟨before, other, after, later, fun b member =>
          succeed b (List.mem_cons_of_mem a member), fails⟩

end Except

namespace TerraDoc

open Files

/-- Every folder of a tree has its entries in the order of their names, each name once. -/
inductive Files.Node.Orderly : Node → Prop where
  | file (content : List UInt8) : Orderly (.file content)
  | folder {entries : List (String × Node)} (ordered : Dictionary.Ordered entries)
      (each : ∀ entry ∈ entries, Orderly entry.2) : Orderly (.folder entries)
  | link (target : List Char) : Orderly (.link target)

theorem Files.Node.Orderly.entries {node : Node} (orderly : node.Orderly) :
    Dictionary.Ordered node.entries ∧ ∀ entry ∈ node.entries, entry.2.Orderly := by
  cases orderly with
  | file | link => exact ⟨List.Pairwise.nil, fun entry member => nomatch member⟩
  | folder ordered each => exact ⟨ordered, each⟩

theorem Files.Node.Orderly.at? {node found : Node} (orderly : node.Orderly) {place : List String}
    (same : node.at? place = some found) : found.Orderly := by
  induction place generalizing node with
  | nil =>
    rw [Node.at?_nil] at same
    cases same
    exact orderly
  | cons name rest inductionHypothesis =>
    rw [Node.at?] at same
    obtain ⟨child, inside, later⟩ := Option.bind_eq_some_iff.mp same
    exact inductionHypothesis (orderly.entries.2 _ (Dictionary.mem_of_find? inside)) later

theorem Files.list_names {files : FileSystem} (wellNamed : files.root.WellNamed)
    (orderly : files.root.Orderly) {folder : List Char} {paths : List (List Char)}
    (listed : files.list folder = .ok paths) :
    ∃ names : List String, paths = names.map (fun name => Path.join folder name.toList) ∧
      names.Pairwise (· < ·) ∧ ∀ name ∈ names, Path.IsName name.toList := by
  rcases list_eq_ok_iff.mp listed with ⟨-, rfl⟩ | ⟨-, place, -, -, rfl⟩
  · exact ⟨[], rfl, .nil, nofun⟩
  cases found : files.root.at? place with
  | none => exact ⟨[], by simp, List.Pairwise.nil, fun name member => nomatch member⟩
  | some node =>
    have ordered := (orderly.at? found).entries.1
    refine ⟨(node.entries.filter (isListed files folder place)).map Prod.fst, ?_, ?_, ?_⟩
    · simp [Function.comp_def]
    · rw [List.pairwise_map]
      exact ordered.filter _
    · intro name member
      obtain ⟨entry, inside, rfl⟩ := List.mem_map.mp member
      exact ((wellNamed.at? found).entries (List.mem_filter.mp inside).1).1

namespace Module

/-- The name of a module's folder. -/
def Folder.name (folder : Folder) : List Char :=
  (Path.fileName? folder.path).getD []

/-- One folder comes before another by the bytes of their names. -/
def Folder.Before (first second : Folder) : Prop :=
  Text.Utf8.encode first.name < Text.Utf8.encode second.name

instance (first second : Folder) : Decidable (first.Before second) :=
  inferInstanceAs (Decidable (Text.Utf8.encode first.name < Text.Utf8.encode second.name))

/-- The folders that are found are in the order of their names, and their keys are made of these. -/
theorem discover_names {files : FileSystem} (wellNamed : files.root.WellNamed)
    (orderly : files.root.Orderly) {repository modulesDir : List Char} {folders : List Folder}
    (found : discover files repository modulesDir = .ok folders) :
    folders.Pairwise Folder.Before ∧
      ∀ folder ∈ folders,
        folder.relative.toList = modulesFolder modulesDir ++ '/' :: folder.name := by
  constructor
  · obtain ⟨_, -, found⟩ := Except.bind_eq_ok.mp found
    obtain ⟨paths, listed, found⟩ := Except.bind_eq_ok.mp found
    cases found
    obtain ⟨names, rfl, ascending, ordinary⟩ := list_names wellNamed orderly listed
    rw [List.pairwise_map]
    apply List.Pairwise.filter
    rw [List.pairwise_map]
    apply ascending.imp_of_mem
    intro first second member member' smaller
    rw [Folder.Before, Folder.name, Folder.name, Path.fileName?_join _ (ordinary first member),
      Path.fileName?_join _ (ordinary second member')]
    exact (Text.Utf8.encode_lt_iff first second).mpr smaller
  · intro folder member
    obtain ⟨name, ordinary, path, relative⟩ := mem_discover wellNamed found member
    rw [Folder.name, path, Path.fileName?_join _ ordinary]
    exact relative

theorem Folder.Before.relative {first second : Folder} {front : List Char}
    (before : first.Before second) (same : first.relative.toList = front ++ '/' :: first.name)
    (same' : second.relative.toList = front ++ '/' :: second.name) :
    Text.Utf8.encode first.relative.toList < Text.Utf8.encode second.relative.toList := by
  have split (name : List Char) : Text.Utf8.encode (front ++ '/' :: name) =
      Text.Utf8.encode (front ++ ['/']) ++ Text.Utf8.encode name := by
    simp [Text.Utf8.encode]
  rw [same, same', split first.name, split second.name]
  exact List.append_left_lt before

end Module

namespace Scan

variable {settings : Settings} {files : FileSystem} {repository : List Char}
  {history : HistorySource} {folder : Module.Folder}

/-- A folder fails with the error of its record, or else with the error of its history. -/
inductive Fails (settings : Settings) (files : FileSystem) (history : HistorySource)
    (folder : Module.Folder) : Failure → Prop where
  | record {failure : Failure} (fails : Module.assemble settings files folder = .error failure) :
      Fails settings files history folder failure
  | commits {record : Module.Record} {failure : Failure}
      (assembled : Module.assemble settings files folder = .ok record)
      (fails : history folder.relative = .error failure) :
      Fails settings files history folder failure

theorem document_eq_error_iff {failure : Failure} :
    document settings files history folder = .error failure ↔
      Fails settings files history folder failure := by
  rw [document, Except.bind_eq_error]
  constructor
  · intro fails
    rcases fails with fails | ⟨record, assembled, fails⟩
    · exact Fails.record fails
    · rcases Except.bind_eq_error.mp fails with fails | ⟨commits, -, none⟩
      · exact Fails.commits assembled fails
      · cases none
  · intro fails
    cases fails with
    | record fails => exact .inl fails
    | commits assembled fails =>
      exact .inr ⟨_, assembled, Except.bind_eq_error.mpr (.inl fails)⟩

theorem document_eq_ok_iff {documented : DocumentedModule} :
    document settings files history folder = .ok documented ↔
      Module.assemble settings files folder = .ok documented.module ∧
        history folder.relative = .ok documented.commits := by
  rw [document, Except.bind_eq_ok]
  constructor
  · intro succeeds
    obtain ⟨record, assembled, succeeds⟩ := succeeds
    obtain ⟨commits, told, same⟩ := Except.bind_eq_ok.mp succeeds
    cases same
    exact ⟨assembled, told⟩
  · intro parts
    exact ⟨_, parts.1, Except.bind_eq_ok.mpr ⟨_, parts.2, rfl⟩⟩

/-- One slot for each folder, and in it what came of the folder once that is known. -/
abbrev Slots := List (Option (Except Failure DocumentedModule))

/-- Document the folder at one position and put what comes of it into its slot. -/
def fill (settings : Settings) (files : FileSystem) (history : HistorySource)
    (folders : List Module.Folder) (slots : Slots) (position : Nat) : Slots :=
  slots.set position (folders[position]?.map (document settings files history))

/-- The slots after the folders at some positions have been documented, one after the other. -/
def fillAll (settings : Settings) (files : FileSystem) (history : HistorySource)
    (folders : List Module.Folder) (order : List Nat) : Slots :=
  order.foldl (fill settings files history folders) (folders.map fun _ => none)

/-- What came of each folder, together under the keys of the folders. -/
def collect (folders : List Module.Folder) (results : List (Except Failure DocumentedModule)) :
    Except Failure Catalogue := do
  let modules ← (folders.zip results).mapM fun (folder, result) =>
    result.map fun documented => (folder.relative, documented)
  return Dictionary.ofList modules

/-- Document the folders that were found in a given order and then collect the slots in the order
of the folders. Nothing comes of it while a slot is empty. -/
def runFound (settings : Settings) (files : FileSystem) (history : HistorySource)
    (order : List Nat) :
    Except Failure (List Module.Folder) → Option (Except Failure Catalogue)
  | .error failure => some (.error failure)
  | .ok folders =>
      ((fillAll settings files history folders order).mapM id).map (collect folders)

/-- A scan that documents the folders in a given order. -/
def runInOrder (settings : Settings) (files : FileSystem) (repository : List Char)
    (history : HistorySource) (order : List Nat) : Option (Except Failure Catalogue) :=
  runFound settings files history order (folders settings files repository)

theorem length_foldl_fill (folders : List Module.Folder) (slots : Slots) (order : List Nat) :
    (order.foldl (fill settings files history folders) slots).length = slots.length := by
  induction order generalizing slots with
  | nil => rfl
  | cons position order inductionHypothesis =>
    rw [List.foldl_cons, inductionHypothesis, fill, List.length_set]

/-- A slot that has been filled keeps what came of its folder, whatever is filled later. -/
theorem getElem?_foldl_fill {folders : List Module.Folder} {slots : Slots} {order : List Nat}
    {position : Nat} (inside : position < slots.length)
    (known : position ∈ order ∨
      slots[position]? = some (folders[position]?.map (document settings files history))) :
    (order.foldl (fill settings files history folders) slots)[position]? =
      some (folders[position]?.map (document settings files history)) := by
  induction order generalizing slots with
  | nil => exact known.resolve_left List.not_mem_nil
  | cons first order inductionHypothesis =>
    rw [List.foldl_cons]
    apply inductionHypothesis
    · rw [fill, List.length_set]
      exact inside
    · by_cases here : first = position
      · right
        rw [fill, here, List.getElem?_set_self inside]
      · rw [fill, List.getElem?_set_ne here]
        rcases known with later | filled
        · exact .inl ((List.mem_cons.mp later).resolve_left fun same => here same.symm)
        · exact .inr filled

theorem fillAll_eq {folders : List Module.Folder} {order : List Nat}
    (complete : ∀ position < folders.length, position ∈ order) :
    fillAll settings files history folders order =
      folders.map fun folder => some (document settings files history folder) := by
  apply List.ext_getElem?
  intro position
  by_cases inside : position < folders.length
  · have filled : (fillAll settings files history folders order)[position]? =
        some (folders[position]?.map (document settings files history)) :=
      getElem?_foldl_fill (by rwa [List.length_map]) (.inl (complete position inside))
    rw [filled, List.getElem?_map, List.getElem?_eq_getElem inside]
    rfl
  · have outside := Nat.le_of_not_lt inside
    rw [List.getElem?_eq_none, List.getElem?_eq_none]
    · rwa [List.length_map]
    · rwa [fillAll, length_foldl_fill, List.length_map]

theorem mapM_id_map_some {α β : Type} (f : α → β) (list : List α) :
    (list.map fun a => some (f a)).mapM id = some (list.map f) :=
  Option.mapM_map_eq_some fun _ _ => rfl

theorem mapM_zip_map {ε α β γ : Type} (f : α → β) (g : α × β → Except ε γ) (list : List α) :
    (list.zip (list.map f)).mapM g = list.mapM fun a => g (a, f a) := by
  induction list with
  | nil => rfl
  | cons a rest inductionHypothesis =>
    rw [List.map_cons, List.zip_cons_cons, List.mapM_cons, List.mapM_cons, inductionHypothesis]

theorem runInOrder_eq_run {folders : List Module.Folder} {order : List Nat}
    (found : Scan.folders settings files repository = .ok folders)
    (complete : ∀ position < folders.length, position ∈ order) :
    runInOrder settings files repository history order =
      some (run settings files repository history) := by
  have collected (folder : Module.Folder) :
      (document settings files history folder).map (fun documented => (folder.relative, documented)) =
        (do return (folder.relative, ← document settings files history folder)) := by
    cases document settings files history folder with
    | error failure => rfl
    | ok documented => rfl
  simp only [runInOrder, runFound, found, fillAll_eq complete, mapM_id_map_some, Option.map_some,
    collect, mapM_zip_map, collected]
  rw [run, found]
  rfl

variable {folders : List Module.Folder}

/-- What a folder gives, under its key. -/
def keyed (settings : Settings) (files : FileSystem) (history : HistorySource)
    (folder : Module.Folder) : Except Failure (String × DocumentedModule) := do
  return (folder.relative, ← document settings files history folder)

theorem keyed_eq_ok_iff {entry : String × DocumentedModule} :
    keyed settings files history folder = .ok entry ↔
      entry.1 = folder.relative ∧ document settings files history folder = .ok entry.2 := by
  rw [keyed, Except.bind_eq_ok]
  constructor
  · intro succeeds
    obtain ⟨documented, here, same⟩ := succeeds
    cases same
    exact ⟨rfl, here⟩
  · intro parts
    obtain ⟨key, here⟩ := parts
    exact ⟨entry.2, here, by rw [← key]; rfl⟩

theorem keyed_eq_error_iff {failure : Failure} :
    keyed settings files history folder = .error failure ↔
      document settings files history folder = .error failure := by
  rw [keyed, Except.bind_eq_error]
  constructor
  · intro fails
    rcases fails with fails | ⟨_, -, none⟩
    · exact fails
    · cases none
  · exact Or.inl

theorem run_eq (found : Scan.folders settings files repository = .ok folders) :
    run settings files repository history =
      (do return Dictionary.ofList (← folders.mapM (keyed settings files history))) := by
  rw [run, found]
  rfl

theorem ordered_of_run {catalogue : Catalogue}
    (ran : run settings files repository history = .ok catalogue) :
    Dictionary.Ordered catalogue := by
  obtain ⟨folders, -, ran⟩ := Except.bind_eq_ok.mp ran
  obtain ⟨modules, -, same⟩ := Except.bind_eq_ok.mp ran
  cases same
  exact Dictionary.ordered_ofList modules

theorem map_fst_of_keyed {catalogue : Catalogue}
    (each : List.Forall₂ (fun folder entry =>
      keyed settings files history folder = .ok entry) folders catalogue) :
    catalogue.map Prod.fst = folders.map (·.relative) := by
  induction each with
  | nil => rfl
  | cons here _ inductionHypothesis =>
    rw [List.map_cons, List.map_cons, inductionHypothesis, (keyed_eq_ok_iff.mp here).1]

/-- A scan succeeds if every folder does, and holds what each folder gives under its own key. -/
theorem run_eq_ok_iff (found : Scan.folders settings files repository = .ok folders)
    (ascending : folders.Pairwise fun first second => first.relative < second.relative)
    {catalogue : Catalogue} :
    run settings files repository history = .ok catalogue ↔
      List.Forall₂ (fun folder entry =>
        keyed settings files history folder = .ok entry) folders catalogue := by
  have ordered {catalogue : Catalogue} (each : List.Forall₂ (fun folder entry =>
      keyed settings files history folder = .ok entry) folders catalogue) :
      Dictionary.ofList catalogue = catalogue := by
    apply Dictionary.ofList_of_ordered
    have keys : (catalogue.map Prod.fst).Pairwise (· < ·) := by
      rw [map_fst_of_keyed each, List.pairwise_map]
      exact ascending
    rwa [List.pairwise_map] at keys
  rw [run_eq found, Except.bind_eq_ok]
  constructor
  · intro succeeds
    obtain ⟨modules, each, same⟩ := succeeds
    rw [Except.mapM_eq_ok_iff] at each
    rw [Except.pure_eq_ok, ordered each] at same
    rwa [same] at each
  · intro each
    refine ⟨catalogue, Except.mapM_eq_ok_iff.mpr each, ?_⟩
    rw [Except.pure_eq_ok, ordered each]

theorem run_eq_error_iff (found : Scan.folders settings files repository = .ok folders)
    {failure : Failure} :
    run settings files repository history = .error failure ↔
      ∃ before folder after, folders = before ++ folder :: after ∧
        (∀ other ∈ before, ∃ entry, keyed settings files history other = .ok entry) ∧
        keyed settings files history folder = .error failure := by
  rw [run_eq found, Except.bind_eq_error, Except.mapM_eq_error_iff]
  constructor
  · intro fails
    rcases fails with fails | ⟨_, -, none⟩
    · exact fails
    · cases none
  · exact Or.inl

theorem not_fails_of_keyed {entry : String × DocumentedModule} {failure : Failure}
    (succeeds : keyed settings files history folder = .ok entry) :
    ¬ Fails settings files history folder failure := by
  intro fails
  rw [← document_eq_error_iff, ← keyed_eq_error_iff, succeeds] at fails
  cases fails

theorem keyed_of_not_fails
    (never : ∀ failure, ¬ Fails settings files history folder failure) :
    ∃ entry, keyed settings files history folder = .ok entry := by
  cases result : keyed settings files history folder with
  | ok entry => exact ⟨entry, rfl⟩
  | error failure =>
    rw [keyed_eq_error_iff, document_eq_error_iff] at result
    exact absurd result (never failure)

theorem keyed_of_mem {catalogue : Catalogue}
    (each : List.Forall₂ (fun folder entry =>
      keyed settings files history folder = .ok entry) folders catalogue)
    (member : folder ∈ folders) : ∃ entry, keyed settings files history folder = .ok entry := by
  obtain ⟨entry, -, keyed⟩ := exists_of_mem_left each member
  exact ⟨entry, keyed⟩

theorem run_fails_iff_any (found : Scan.folders settings files repository = .ok folders) :
    (∃ failure, run settings files repository history = .error failure) ↔
      ∃ folder ∈ folders, ∃ failure, Fails settings files history folder failure := by
  constructor
  · intro fails
    obtain ⟨failure, fails⟩ := fails
    obtain ⟨before, folder, after, split, -, fails⟩ := (run_eq_error_iff found).mp fails
    rw [keyed_eq_error_iff, document_eq_error_iff] at fails
    rw [split]
    exact ⟨folder, List.mem_append_right _ List.mem_cons_self, failure, fails⟩
  · intro some
    obtain ⟨folder, member, failure, fails⟩ := some
    cases result : run settings files repository history with
    | error failure => exact ⟨failure, rfl⟩
    | ok catalogue =>
      rw [run_eq found, Except.bind_eq_ok] at result
      obtain ⟨modules, each, -⟩ := result
      obtain ⟨entry, succeeds⟩ := keyed_of_mem (Except.mapM_eq_ok_iff.mp each) member
      exact absurd fails (not_fails_of_keyed succeeds)

theorem documented_of_run {catalogue : Catalogue}
    (ran : run settings files repository history = .ok catalogue) :
    ∃ folders, Module.discover files repository settings.modulesDir.toList = .ok folders ∧
      ∀ folder ∈ folders, ∃ record commits, Module.assemble settings files folder = .ok record ∧
        history folder.relative = .ok commits := by
  obtain ⟨folders, found, -⟩ := Except.bind_eq_ok.mp ran
  refine ⟨folders, Except.mapError_eq_ok.mp found, ?_⟩
  intro folder member
  cases documented : document settings files history folder with
  | ok documented => exact ⟨_, _, document_eq_ok_iff.mp documented⟩
  | error failure =>
    have fails := document_eq_error_iff.mp documented
    obtain ⟨failure, fails⟩ := (run_fails_iff_any found).mpr ⟨folder, member, failure, fails⟩
    rw [ran] at fails
    cases fails

/-- Of folders in the order of their names, the first that fails has the least name. -/
theorem run_fails_iff (found : Scan.folders settings files repository = .ok folders)
    (ascending : folders.Pairwise Module.Folder.Before) {failure : Failure} :
    run settings files repository history = .error failure ↔
      ∃ folder ∈ folders, Fails settings files history folder failure ∧
        ∀ other ∈ folders, other.Before folder →
          ∀ failure, ¬ Fails settings files history other failure := by
  rw [run_eq_error_iff found]
  constructor
  · intro fails
    obtain ⟨before, folder, after, split, succeed, fails⟩ := fails
    rw [keyed_eq_error_iff, document_eq_error_iff] at fails
    rw [split] at ascending ⊢
    obtain ⟨-, later, -⟩ := List.pairwise_append.mp ascending
    refine ⟨folder, by simp, fails, ?_⟩
    intro other member smaller failure
    rcases List.mem_append.mp member with first | rest
    · obtain ⟨entry, succeeds⟩ := succeed other first
      exact not_fails_of_keyed succeeds
    · rcases List.mem_cons.mp rest with rfl | last
      · exact absurd smaller (List.lt_irrefl _)
      · exact absurd smaller (List.lt_asymm ((List.pairwise_cons.mp later).1 other last))
  · intro least
    obtain ⟨folder, member, fails, succeed⟩ := least
    obtain ⟨before, after, split⟩ := List.append_of_mem member
    refine ⟨before, folder, after, split, ?_, ?_⟩
    · intro other first
      rw [split] at ascending
      obtain ⟨-, -, smaller⟩ := List.pairwise_append.mp ascending
      have inside : other ∈ folders := by
        rw [split]
        exact List.mem_append_left _ first
      exact keyed_of_not_fails (succeed other inside (smaller other first folder List.mem_cons_self))
    · rwa [keyed_eq_error_iff, document_eq_error_iff]

/-- Scanning many modules is scanning each alone, whatever the order in which that is done. The
scan fails exactly if some folder does, with the error of the folder that comes first by the bytes
of its name. Else it has one entry for each folder, under the key of the folder and in the order of
the keys, with the record and the commits of that folder. -/
theorem scan_each_alone (history : HistorySource) (wellNamed : files.root.WellNamed)
    (orderly : files.root.Orderly)
    (found : Module.discover files repository settings.modulesDir.toList = .ok folders)
    {order : List Nat} (complete : ∀ position < folders.length, position ∈ order) :
    (∀ folder ∈ folders, folder.relative.toList =
      Text.trimWhile (· == '/') settings.modulesDir.toList ++ '/' :: folder.name) ∧
    ∃ outcome, runInOrder settings files repository history order = some outcome ∧
      ((∃ failure, outcome = .error failure) ↔
        ∃ folder ∈ folders, ∃ failure, Fails settings files history folder failure) ∧
      (∀ failure, outcome = .error failure ↔
        ∃ folder ∈ folders, Fails settings files history folder failure ∧
          ∀ other ∈ folders, other.Before folder →
            ∀ failure, ¬ Fails settings files history other failure) ∧
      ∀ catalogue, outcome = .ok catalogue →
        List.Forall₂ (fun folder entry => entry.1 = folder.relative ∧
          Module.assemble settings files folder = .ok entry.2.module ∧
          history folder.relative = .ok entry.2.commits) folders catalogue ∧
        catalogue.Pairwise fun first second =>
          Text.Utf8.encode first.1.toList < Text.Utf8.encode second.1.toList := by
  obtain ⟨ascending, keys⟩ := Module.discover_names wellNamed orderly found
  have scanned : Scan.folders settings files repository = .ok folders := by
    rw [Scan.folders, found]
    rfl
  have bytes : folders.Pairwise fun first second =>
      Text.Utf8.encode first.relative.toList < Text.Utf8.encode second.relative.toList :=
    ascending.imp_of_mem fun member member' before =>
      before.relative (keys _ member) (keys _ member')
  have texts : folders.Pairwise fun first second => first.relative < second.relative :=
    bytes.imp fun smaller => (Text.Utf8.encode_lt_iff _ _).mp smaller
  refine ⟨keys, _, runInOrder_eq_run scanned complete, ?_, ?_, ?_⟩
  · exact run_fails_iff_any scanned
  · intro failure
    exact run_fails_iff scanned ascending
  · intro catalogue succeeds
    have each := (run_eq_ok_iff scanned texts).mp succeeds
    constructor
    · apply each.imp
      intro folder entry here
      obtain ⟨key, documented⟩ := keyed_eq_ok_iff.mp here
      exact ⟨key, document_eq_ok_iff.mp documented⟩
    · have sorted : (catalogue.map Prod.fst).Pairwise fun first second =>
          Text.Utf8.encode first.toList < Text.Utf8.encode second.toList := by
        rw [map_fst_of_keyed each, List.pairwise_map]
        exact bytes
      rwa [List.pairwise_map] at sorted

/-- A repository of two modules, the second of which cannot be read. -/
def brokenTree : FileSystem :=
  ⟨.folder [("repo", .folder [("modules", .folder [("a", .folder []),
    ("b", .folder [("main.tf", .file (Text.Utf8.encode "variable".toList))])])])], []⟩

/-- A history that knows nothing of the first module. -/
def lostHistory : HistorySource := fun folder =>
  if folder = "modules/a" then .error (.git (.unreadable "gone")) else .ok []

theorem wellNamed_brokenTree : brokenTree.root.WellNamed := by
  have repo : Path.IsName "repo".toList := by decide
  have modules : Path.IsName "modules".toList := by decide
  have a : Path.IsName "a".toList := by decide
  have b : Path.IsName "b".toList := by decide
  have main : Path.IsName "main.tf".toList := by decide
  apply Node.WellNamed.folder (List.forall_mem_singleton.mpr repo)
  rw [List.forall_mem_singleton]
  apply Node.WellNamed.folder (List.forall_mem_singleton.mpr modules)
  rw [List.forall_mem_singleton]
  apply Node.WellNamed.folder (List.forall_mem_cons.mpr ⟨a, List.forall_mem_singleton.mpr b⟩)
  rw [List.forall_mem_cons]
  constructor
  · exact .folder nofun nofun
  · rw [List.forall_mem_singleton]
    exact .folder (List.forall_mem_singleton.mpr main) (List.forall_mem_singleton.mpr (.file _))

theorem orderly_brokenTree : brokenTree.root.Orderly := by
  apply Node.Orderly.folder (List.pairwise_singleton _ _)
  rw [List.forall_mem_singleton]
  apply Node.Orderly.folder (List.pairwise_singleton _ _)
  rw [List.forall_mem_singleton]
  apply Node.Orderly.folder (List.pairwise_pair.mpr (by decide))
  rw [List.forall_mem_cons]
  constructor
  · exact .folder .nil nofun
  · rw [List.forall_mem_singleton]
    exact .folder (List.pairwise_singleton _ _) (List.forall_mem_singleton.mpr (.file _))

/-- The history of the first module fails the scan, also when the second module fails before. -/
theorem scan_each_alone_backwards :
    brokenTree.root.WellNamed ∧ brokenTree.root.Orderly ∧
      Module.discover brokenTree "repo".toList Settings.default.modulesDir.toList =
        .ok [⟨"repo/modules/a".toList, "modules/a"⟩, ⟨"repo/modules/b".toList, "modules/b"⟩] ∧
      (∀ position < 2, position ∈ [1, 0]) ∧
      runInOrder Settings.default brokenTree "repo".toList lostHistory [1, 0] =
        some (.error (.git (.unreadable "gone"))) := by
  have found : Module.discover brokenTree "repo".toList Settings.default.modulesDir.toList =
      .ok [⟨"repo/modules/a".toList, "modules/a"⟩, ⟨"repo/modules/b".toList, "modules/b"⟩] := by
    decide +kernel
  have complete : ∀ position < 2, position ∈ [1, 0] := by decide
  have assembled : Module.assemble Settings.default brokenTree
      ⟨"repo/modules/a".toList, "modules/a"⟩ = .ok ⟨"modules/a", .empty, [], []⟩ :=
    Except.toOption_eq_some.mp (by decide +kernel)
  obtain ⟨-, outcome, same, -, decides, -⟩ :=
    scan_each_alone lostHistory wellNamed_brokenTree orderly_brokenTree found complete
  have fails : outcome = .error (.git (.unreadable "gone")) := by
    refine (decides _).mpr ⟨_, List.mem_cons_self, .commits assembled rfl, ?_⟩
    intro other member before
    rcases List.mem_cons.mp member with rfl | last
    · exact absurd before (List.lt_irrefl _)
    · rw [List.mem_singleton.mp last] at before
      exact absurd before (by decide +kernel)
  rw [fails] at same
  exact ⟨wellNamed_brokenTree, orderly_brokenTree, found, complete, same⟩

end Scan

end TerraDoc
