import TerraDoc.Docs.Publication
import TerraDoc.Proofs.DictionaryOrder
import TerraDoc.Proofs.PathNames
import TerraDoc.Proofs.Results
import TerraDoc.Scan

/-!
Where the documents of modules go: the README of each into the folder that the module was found in.
-/

namespace TerraDoc

namespace Files

/-- Every folder of a tree calls its entries by names. -/
inductive Node.WellNamed : Node → Prop where
  | file (content : List UInt8) : WellNamed (.file content)
  | folder {entries : List (String × Node)}
      (named : ∀ entry ∈ entries, Path.IsName entry.1.toList)
      (each : ∀ entry ∈ entries, WellNamed entry.2) : WellNamed (.folder entries)
  | link (target : List Char) : WellNamed (.link target)

theorem Node.WellNamed.entries {node : Node} (wellNamed : node.WellNamed) {entry : String × Node}
    (member : entry ∈ node.entries) : Path.IsName entry.1.toList ∧ entry.2.WellNamed := by
  cases wellNamed with
  | file | link => cases member
  | folder named each => exact ⟨named entry member, each entry member⟩

theorem Node.WellNamed.at? {node found : Node} (wellNamed : node.WellNamed) {place : List String}
    (same : node.at? place = some found) : found.WellNamed := by
  induction place generalizing node with
  | nil =>
    rw [Node.at?_nil] at same
    cases same
    exact wellNamed
  | cons name rest ih =>
    rw [Node.at?] at same
    obtain ⟨child, inside, later⟩ := Option.bind_eq_some_iff.mp same
    exact ih (wellNamed.entries (Dictionary.mem_of_find? inside)).2 later

theorem list_eq_ok_iff {files : FileSystem} {path : List Char} {paths : List (List Char)} :
    files.list path = .ok paths ↔ isInput path = true ∧ paths = [] ∨
      isInput path = false ∧ ∃ place, files.place path = .ok place ∧
        files.listingProblems place = [] ∧
        ((((files.root.at? place).map Node.entries).getD []).filter
          (isListed files path place)).map (fun entry => Path.join path entry.1.toList) = paths := by
  rw [FileSystem.list]
  cases input : isInput path with
  | true =>
    simp only [if_true, true_and, Bool.true_eq_false, false_and, or_false]
    exact Except.pure_eq_ok.trans eq_comm
  | false =>
    simp only [Bool.false_eq_true, if_false, false_and, true_and, false_or]
    rw [Except.bind_eq_ok]
    apply exists_congr
    intro place
    rw [Except.mapError_eq_ok]
    apply and_congr_right
    intro here
    cases problems : files.listingProblems place with
    | nil => simp [Except.pure_eq_ok]
    | cons problem rest => simp

theorem mem_list {files : FileSystem} (wellNamed : files.root.WellNamed) {folder : List Char}
    {paths : List (List Char)} (listed : files.list folder = .ok paths) {path : List Char}
    (member : path ∈ paths) : ∃ name, Path.IsName name ∧ path = Path.join folder name := by
  rcases list_eq_ok_iff.mp listed with ⟨-, rfl⟩ | ⟨-, place, -, -, rfl⟩
  · cases member
  · obtain ⟨entry, inside, rfl⟩ := List.mem_map.mp member
    have shown := (List.mem_filter.mp inside).1
    cases found : files.root.at? place with
    | none => simp [found] at shown
    | some node =>
      rw [found] at shown
      exact ⟨entry.1.toList, ((wellNamed.at? found).entries shown).1, rfl⟩

end Files

open Files

namespace Module

/-- The folder of the modules as a path from the repository. -/
def modulesFolder (modulesDir : List Char) : List Char :=
  Text.trimWhile (· == '/') modulesDir

variable {files : FileSystem} {repository modulesDir : List Char} {folders : List Folder}
  {folder : Folder}

theorem mem_discover (wellNamed : files.root.WellNamed)
    (found : discover files repository modulesDir = .ok folders) (member : folder ∈ folders) :
    ∃ name, Path.IsName name ∧
      folder.path = Path.join (Path.join repository (modulesFolder modulesDir)) name ∧
      folder.relative.toList = modulesFolder modulesDir ++ '/' :: name := by
  obtain ⟨_, -, found⟩ := Except.bind_eq_ok.mp found
  obtain ⟨paths, listed, found⟩ := Except.bind_eq_ok.mp found
  cases found
  obtain ⟨path, inside, rfl⟩ := List.mem_map.mp member
  obtain ⟨name, ordinary, rfl⟩ := mem_list wellNamed listed (List.mem_filter.mp inside).1
  refine ⟨name, ordinary, rfl, ?_⟩
  dsimp only
  rw [Path.fileName?_join _ ordinary, String.toList_ofList]
  rfl

theorem modulesFolder_ends (own : ∃ c ∈ modulesDir, c ≠ '/') :
    modulesFolder modulesDir ≠ [] ∧ Path.isAbsolute (modulesFolder modulesDir) = false ∧
      (modulesFolder modulesDir).getLast? ≠ some '/' := by
  obtain ⟨c, inside, other⟩ := own
  have kept : (c == '/') = false := beq_eq_false_iff_ne.mpr other
  obtain ⟨nonempty, first, last⟩ := Text.trimWhile_ends (· == '/') ⟨c, inside, kept⟩
  refine ⟨nonempty, ?_, fun slash => ?_⟩
  · rw [Path.isAbsolute, decide_eq_false_iff_not]
    exact fun slash => absurd (first '/' slash) (by decide)
  · exact absurd (last '/' slash) (by decide)

theorem join_relative (wellNamed : files.root.WellNamed) (own : ∃ c ∈ modulesDir, c ≠ '/')
    (found : discover files repository modulesDir = .ok folders) (member : folder ∈ folders) :
    Path.join repository folder.relative.toList = folder.path := by
  obtain ⟨name, ordinary, path, relative⟩ := mem_discover wellNamed found member
  obtain ⟨nonempty, inside, last⟩ := modulesFolder_ends own
  rw [path, relative, Path.join_join repository nonempty inside last ordinary.descends.relative]

/-- A folder of a module lies in the repository, unless the modules are said to lie above it. -/
theorem within_repository (wellNamed : files.root.WellNamed) (own : ∃ c ∈ modulesDir, c ≠ '/')
    (down : ['.', '.'] ∉ Path.names modulesDir)
    (found : discover files repository modulesDir = .ok folders) (member : folder ∈ folders) :
    Path.Within repository folder.path := by
  obtain ⟨name, ordinary, path, -⟩ := mem_discover wellNamed found member
  obtain ⟨-, inside, -⟩ := modulesFolder_ends own
  have single := ordinary.names_eq
  refine ⟨?_, Path.names modulesDir ++ [name], ?_, by simp, ?_⟩
  · rw [path, Path.isAbsolute_join _ ordinary.descends.relative,
      Path.isAbsolute_join _ inside]
  · rw [path, Path.names_join _ ordinary.descends.relative, Path.names_join _ inside, single,
      modulesFolder, Path.names_trimWhile, List.append_assoc]
  · rw [List.mem_append, List.mem_singleton, not_or]
    exact ⟨down, fun same => ordinary.up same.symm⟩

end Module

theorem Scan.mem_run {settings : Settings} {files : FileSystem} {repository : List Char}
    {history : HistorySource} {folders : List Module.Folder} {catalogue : Catalogue}
    (found : Scan.folders settings files repository = .ok folders)
    (run : Scan.run settings files repository history = .ok catalogue)
    {entry : String × DocumentedModule} (member : entry ∈ catalogue) :
    ∃ folder ∈ folders, entry.1 = folder.relative ∧
      Scan.document settings files history folder = .ok entry.2 := by
  rw [Scan.run, found] at run
  obtain ⟨_, ⟨⟩, run⟩ := Except.bind_eq_ok.mp run
  obtain ⟨modules, each, run⟩ := Except.bind_eq_ok.mp run
  cases run
  obtain ⟨folder, inside, same⟩ := Except.mem_of_mapM_eq_ok each (Dictionary.mem_ofList member)
  obtain ⟨documented, read, same⟩ := Except.bind_eq_ok.mp same
  cases same
  exact ⟨folder, inside, rfl, read⟩

theorem Docs.mem_writeEach {documents : List (List Char × List Char)} {files : FileSystem}
    {path : List Char} (member : path ∈ (Docs.writeEach documents files).paths) :
    path ∈ documents.map Prod.fst := by
  induction documents generalizing files with
  | nil => cases member
  | cons document rest ih =>
    obtain ⟨there, text⟩ := document
    rw [Docs.writeEach] at member
    split at member
    · cases member
    · rcases List.mem_cons.mp member with rfl | later
      · exact List.mem_cons_self
      · exact List.mem_cons_of_mem _ (ih later)

/-- READMEs stay in the modules that were scanned, if the folder of the modules has a name and the
name of the READMEs leads down: the repository and the name of a folder make the path of the folder,
and all that is written apart from the index lies in the folder of its module. If the folder of the
modules does not lead up, that is in the repository. -/
theorem readmes_stay_in_modules {settings : Settings} {files : FileSystem}
    {repository : List Char} {folders : List Module.Folder} (wellNamed : files.root.WellNamed)
    (own : ∃ c ∈ settings.modulesDir.toList, c ≠ '/')
    (found : Module.discover files repository settings.modulesDir.toList = .ok folders) :
    (∀ folder ∈ folders, Path.join repository folder.relative.toList = folder.path) ∧
    ∀ history catalogue later, Scan.run settings files repository history = .ok catalogue →
      Path.Descends settings.readmeName.toList →
      ∀ path ∈ (Docs.publish settings repository catalogue later).paths,
        path = Path.join repository settings.readmeName.toList ∨
        ∃ folder ∈ folders, ∃ documented, (folder.relative, documented) ∈ catalogue ∧
          Scan.document settings files history folder = .ok documented ∧
          path = Path.join folder.path settings.readmeName.toList ∧
          Path.Within folder.path path ∧
          (['.', '.'] ∉ Path.names settings.modulesDir.toList → Path.Within repository path) := by
  have places : ∀ folder ∈ folders, Path.join repository folder.relative.toList = folder.path :=
    fun folder member => Module.join_relative wellNamed own found member
  refine ⟨places, fun history catalogue later run down path written => ?_⟩
  have scanned : Scan.folders settings files repository = .ok folders := by
    rw [Scan.folders, found]
    rfl
  rcases List.mem_cons.mp (Docs.mem_writeEach written) with index | readme
  · exact .inl index
  · refine .inr ?_
    obtain ⟨document, listed, rfl⟩ := List.mem_map.mp readme
    obtain ⟨⟨relative, documented⟩, entry, rfl⟩ := List.mem_map.mp listed
    obtain ⟨folder, member, rfl, read⟩ := Scan.mem_run scanned run entry
    have place := places folder member
    dsimp only
    rw [place]
    have inside : Path.Within folder.path (Path.join folder.path settings.readmeName.toList) :=
      .of_join folder.path down
    refine ⟨folder, member, documented, entry, read, rfl, inside, fun under => ?_⟩
    exact (Module.within_repository wellNamed own under found member).trans inside

def modulesTree : FileSystem :=
  ⟨.folder [("repo", .folder [("modules", .folder [("a", .folder [])])])], []⟩

theorem wellNamed_modulesTree : modulesTree.root.WellNamed := by
  have a : Path.IsName "a".toList := ⟨by decide, by decide, by decide, by decide⟩
  have repo : Path.IsName "repo".toList := ⟨by decide, by decide, by decide, by decide⟩
  have modules : Path.IsName "modules".toList := ⟨by decide, by decide, by decide, by decide⟩
  refine .folder (by simpa using repo) (List.forall_mem_singleton.mpr ?_)
  refine .folder (by simpa using modules) (List.forall_mem_singleton.mpr ?_)
  exact .folder (by simpa using a) (List.forall_mem_singleton.mpr (.folder (by simp) (by simp)))

/-- The README of the one module is written into its folder. -/
theorem readmes_stay_in_modules_single :
    Module.discover modulesTree "repo".toList Settings.default.modulesDir.toList =
        .ok [⟨"repo/modules/a".toList, "modules/a"⟩] ∧
      Path.join "repo".toList "modules/a".toList = "repo/modules/a".toList ∧
      ∃ catalogue,
        Scan.run Settings.default modulesTree "repo".toList .none = .ok catalogue ∧
        "repo/modules/a/README.md".toList ∈
          (Docs.publish Settings.default "repo".toList catalogue modulesTree).paths ∧
        Path.Within "repo/modules/a".toList "repo/modules/a/README.md".toList ∧
        Path.Within "repo".toList "repo/modules/a/README.md".toList := by
  have found : Module.discover modulesTree "repo".toList Settings.default.modulesDir.toList =
      .ok [⟨"repo/modules/a".toList, "modules/a"⟩] := by decide +kernel
  have own : ∃ c ∈ Settings.default.modulesDir.toList, c ≠ '/' := ⟨'m', by decide, by decide⟩
  have down : Path.Descends Settings.default.readmeName.toList :=
    ⟨by decide, by decide, by decide⟩
  have run : Scan.run Settings.default modulesTree "repo".toList .none =
      .ok [("modules/a", ⟨⟨"modules/a", .empty, [], []⟩, []⟩)] :=
    Except.toOption_eq_some.mp (by decide +kernel)
  have written : "repo/modules/a/README.md".toList ∈ (Docs.publish Settings.default "repo".toList
      [("modules/a", ⟨⟨"modules/a", .empty, [], []⟩, []⟩)] modulesTree).paths := by decide +kernel
  obtain ⟨places, readmes⟩ := readmes_stay_in_modules wellNamed_modulesTree own found
  refine ⟨found, places _ List.mem_cons_self, _, run, written, ?_⟩
  rcases readmes _ _ _ run down _ written with index | ⟨folder, member, _, _, _, _, inside, under⟩
  · exact absurd index (by decide)
  · rw [List.mem_singleton.mp member] at inside
    exact ⟨inside, under (by decide)⟩

/-- A repository that is itself the folder of the modules, with a folder of the same name beside
it. -/
def flatTree : FileSystem :=
  ⟨.folder [("a", .folder []), ("repo", .folder [("a", .folder [])])], []⟩

/-- Without a name for the folder of the modules, the README of a module is written beside the
repository. -/
theorem readme_beside_repository :
    ∃ folder catalogue,
      Module.discover flatTree "repo".toList "".toList = .ok [folder] ∧
      Path.join "repo".toList folder.relative.toList ≠ folder.path ∧
      Scan.run { Settings.default with modulesDir := "" } flatTree "repo".toList .none =
        .ok catalogue ∧
      (Docs.publish { Settings.default with modulesDir := "" } "repo".toList catalogue
        flatTree).paths = ["repo/README.md".toList, "/a/README.md".toList] ∧
      ¬ Path.Within folder.path "/a/README.md".toList ∧
      ¬ Path.Within "repo".toList "/a/README.md".toList := by
  refine ⟨⟨"repo/a".toList, "/a"⟩, [("/a", ⟨⟨"/a", .empty, [], []⟩, []⟩)], by decide +kernel,
    by decide, Except.toOption_eq_some.mp (by decide +kernel), by decide +kernel,
    fun inside => ?_, fun inside => ?_⟩
  · exact absurd inside.start (by decide)
  · exact absurd inside.start (by decide)

end TerraDoc
