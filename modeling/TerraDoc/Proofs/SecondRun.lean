import TerraDoc.Proofs.ScanStability

/-!
Documenting a second time. What the first time has written is not read by a scan, so the second time
finds the same modules and writes the same texts over themselves.
-/

namespace TerraDoc

open Files

variable {settings : Settings} {files later : FileSystem} {repository : List Char}
  {history : HistorySource} {catalogue : Catalogue}

namespace Files.FileSystem

variable {path : List Char} {content : List UInt8}

theorem orderly_of_write (free : files.root.LinkFree) (orderly : files.root.Orderly)
    (last : path.getLast? ≠ some '/') (wrote : files.write path content = .ok later) :
    later.root.Orderly := by
  obtain ⟨place, -, -, rfl⟩ := (write_eq_ok_iff free last).mp wrote
  exact orderly.put (.file content) place

theorem user_of_write (free : files.root.LinkFree) (last : path.getLast? ≠ some '/')
    (wrote : files.write path content = .ok later) : later.user = files.user := by
  obtain ⟨place, -, -, rfl⟩ := (write_eq_ok_iff free last).mp wrote
  rfl

theorem write_of_read (free : files.root.LinkFree) (orderly : files.root.Orderly)
    (last : path.getLast? ≠ some '/') (found : files.read path = .ok content) :
    files.write path content = .ok files := by
  obtain ⟨place, finds, there⟩ := (read_eq_ok_iff free).mp found
  rw [write_eq_ok_iff free last]
  refine ⟨place, finds, ?_, ?_⟩
  · intro node same
    rw [there] at same
    cases same
    rfl
  · rw [put, Node.put_of_at? orderly there]

end Files.FileSystem

namespace Docs

variable {documents : List (List Char × List Char)}

theorem orderly_writeEach (free : files.root.LinkFree) (orderly : files.root.Orderly)
    (last : ∀ document ∈ documents, document.1.getLast? ≠ some '/') :
    (writeEach documents files).files.root.Orderly := by
  induction documents generalizing files with
  | nil => exact orderly
  | cons document rest inductionHypothesis =>
    have here := last document List.mem_cons_self
    rw [writeEach]
    split
    · exact orderly
    · rename_i middle first
      obtain ⟨filled, -⟩ := FileSystem.filled_of_write free here first
      exact inductionHypothesis (filled.linkFree free)
        (FileSystem.orderly_of_write free orderly here first)
        fun other member => last other (List.mem_cons_of_mem _ member)

theorem user_writeEach (free : files.root.LinkFree)
    (last : ∀ document ∈ documents, document.1.getLast? ≠ some '/') :
    (writeEach documents files).files.user = files.user := by
  induction documents generalizing files with
  | nil => rfl
  | cons document rest inductionHypothesis =>
    have here := last document List.mem_cons_self
    rw [writeEach]
    split
    · rfl
    · rename_i middle first
      obtain ⟨filled, -⟩ := FileSystem.filled_of_write free here first
      exact (inductionHypothesis (filled.linkFree free) fun other member =>
        last other (List.mem_cons_of_mem _ member)).trans
          (FileSystem.user_of_write free here first)

theorem writeEach_again (free : files.root.LinkFree) (orderly : files.root.Orderly)
    (last : ∀ document ∈ documents, document.1.getLast? ≠ some '/')
    (there : ∀ document ∈ documents,
      files.read document.1 = .ok (Text.Utf8.encode document.2)) :
    writeEach documents files = ⟨files, documents.map Prod.fst, none⟩ := by
  induction documents with
  | nil => rfl
  | cons document rest inductionHypothesis =>
    have first := FileSystem.write_of_read free orderly (last document List.mem_cons_self)
      (there document List.mem_cons_self)
    have others := inductionHypothesis
      (fun other member => last other (List.mem_cons_of_mem _ member))
      (fun other member => there other (List.mem_cons_of_mem _ member))
    rw [writeEach, first]
    dsimp only
    rw [others, List.map_cons]

end Docs

theorem Module.modulesFolder_of_plain {modulesDir : List Char} (plain : Path.Plain modulesDir) :
    modulesFolder modulesDir = modulesDir := by
  apply Text.trimWhile_eq_self
  · intro c first
    rw [beq_eq_false_iff_ne]
    intro slash
    have relative := plain.relative
    rw [Path.isAbsolute, decide_eq_false_iff_not] at relative
    exact relative (by rw [← slash]; exact first)
  · intro c last
    rw [beq_eq_false_iff_ne]
    intro slash
    exact plain.getLast?_ne (by rw [← slash]; exact last)

theorem Scan.plain_of_run (wellNamed : files.root.WellNamed)
    (modules : Path.Plain settings.modulesDir.toList)
    (ran : run settings files repository history = .ok catalogue) :
    ∀ entry ∈ catalogue, Path.Plain entry.1.toList := by
  intro entry member
  obtain ⟨folders, found, -⟩ := Except.bind_eq_ok.mp ran
  obtain ⟨folder, inside, same, -⟩ := mem_run found ran member
  obtain ⟨name, ordinary, -, relative⟩ :=
    Module.mem_discover wellNamed (Except.mapError_eq_ok.mp found) inside
  rw [same, relative, Module.modulesFolder_of_plain modules]
  exact modules.append ordinary

/-- A scan passes over a README, unless rules are read because of it. -/
theorem Docs.unread_of_mem {document : List Char × List Char}
    (member : document ∈ Docs.documents settings repository catalogue)
    (name : Path.IsName settings.readmeName.toList)
    (shown : settings.readmeName.toList.head? ≠ some '.')
    (other : settings.isConfigFile settings.readmeName.toList = false)
    (apart : ¬ FileSystem.RulePlace files (files.destination document.1)) :
    FileSystem.Unread settings files (files.destination document.1) := by
  have called : (files.destination document.1).getLast? = some settings.readmeName := by
    obtain ⟨folder, same⟩ := Docs.path_of_mem_documents member
    rw [same, FileSystem.destination_join files folder name.plain, name.splitOn_eq,
      List.map_singleton, String.ofList_toList, List.getLast?_concat]
  constructor
  · simpa [called] using name
  · simpa [called] using shown
  · simpa [called] using other
  · exact apart

/-- Documenting a repository and then doing so again comes to the same: the second scan gives the
modules of the first, and writing their documents once more changes nothing. The READMEs have a name
that is not hidden and not that of a configuration file, and none of them is written to a place where
rules for what to list are read, or to what leads to such a place. -/
theorem documenting_idempotent (free : files.root.LinkFree) (wellNamed : files.root.WellNamed)
    (orderly : files.root.Orderly) (modules : Path.Plain settings.modulesDir.toList)
    (name : Path.IsName settings.readmeName.toList)
    (shown : settings.readmeName.toList.head? ≠ some '.')
    (other : settings.isConfigFile settings.readmeName.toList = false)
    (scanned : Scan.run settings files repository history = .ok catalogue)
    (published : (Docs.publish settings repository catalogue files).failure = none)
    (apart : ∀ path ∈ (Docs.publish settings repository catalogue files).paths,
      ∀ place, (Docs.publish settings repository catalogue files).files.place path = .ok place →
        ¬ FileSystem.RulePlace files place) :
    let first := Docs.publish settings repository catalogue files
    Scan.run settings first.files repository history = .ok catalogue ∧
      Docs.publish settings repository catalogue first.files =
        ⟨first.files, first.paths, none⟩ := by
  intro first
  have plain := Scan.plain_of_run wellNamed modules scanned
  have ordered := Scan.ordered_of_run scanned
  have distinct := Docs.nodup_placesOf_documents files repository ordered plain name
  have last : ∀ document ∈ Docs.documents settings repository catalogue,
      document.1.getLast? ≠ some '/' := Docs.getLast?_of_mem_documents name
  obtain ⟨written, rest, split, paths, wrote, ends⟩ := Docs.writeEach_wrote free last distinct
  have all : rest = [] := by
    rcases ends with success | failure
    · exact success.2
    · obtain ⟨_, _, cause, -, failed, -⟩ := failure
      cases published.symm.trans failed
  rw [all, List.append_nil] at split
  rw [← split] at wrote paths
  have free' : first.files.root.LinkFree := wrote.filled.linkFree free
  have orderly' : first.files.root.Orderly := Docs.orderly_writeEach free orderly last
  have there : ∀ document ∈ Docs.documents settings repository catalogue,
      first.files.read document.1 = .ok (Text.Utf8.encode document.2) := by
    intro document member
    exact (FileSystem.read_eq_ok_iff free').mpr ⟨_, wrote.texts document member⟩
  have unread : ∀ place ∈ Docs.placesOf files (Docs.documents settings repository catalogue),
      FileSystem.Unread settings files place := by
    intro place among
    obtain ⟨document, member, rfl⟩ := List.mem_map.mp among
    obtain ⟨finds, text⟩ := wrote.texts document member
    apply Docs.unread_of_mem member name shown other
    apply apart document.1
    · exact paths ▸ List.mem_map_of_mem member
    · exact (FileSystem.place_eq_ok_iff free').mpr ⟨finds, Option.isSome_iff_exists.mpr ⟨_, text⟩⟩
  constructor
  · exact Scan.run_of_stable
      ⟨free, wrote.here, Docs.user_writeEach free last, wrote.filled, unread⟩ wellNamed orderly
      orderly' scanned
  · have again := Docs.writeEach_again free' orderly' last there
    rwa [← paths] at again

theorem orderly_modulesTree : modulesTree.root.Orderly := by
  apply Node.Orderly.folder (List.pairwise_singleton _ _)
  rw [List.forall_mem_singleton]
  apply Node.Orderly.folder (List.pairwise_singleton _ _)
  rw [List.forall_mem_singleton]
  apply Node.Orderly.folder (List.pairwise_singleton _ _)
  rw [List.forall_mem_singleton]
  exact .folder .nil nofun

theorem Files.Node.absent_folder {entries : List (String × Node)} {name : String}
    (here : Dictionary.find? name entries = none)
    (each : ∀ entry ∈ entries, ∀ place, entry.2.at? (place ++ [name]) = none)
    (place : List String) : (Node.folder entries).at? (place ++ [name]) = none := by
  cases place with
  | nil => rwa [List.nil_append, Node.at?_singleton]
  | cons first rest =>
    rw [List.cons_append, Node.at?_cons]
    cases found : (Node.folder entries).entries.find? first with
    | none => rfl
    | some child => exact each _ (Dictionary.mem_of_find? found) rest

/-- Where nothing is known of the user and no entry is called `.git`, no rules are read because of a
file without a leading dot. -/
theorem Files.FileSystem.RulePlace.of_unknown (unknown : files.userPaths = [])
    (bare : ∀ place, files.root.at? (place ++ [".git"]) = none) (free : files.root.LinkFree)
    {place : List String} (rules : FileSystem.RulePlace files place) :
    [".git", "info", "exclude"] <:+ place := by
  cases rules with
  | exclude folder => exact List.suffix_append folder _
  | own member =>
    rw [unknown] at member
    cases member
  | @linked path folder member =>
    have missing : files.fileIn folder [".git"] = .error none := by
      rw [FileSystem.fileIn, FileSystem.lookAt?_eq free (by simp) (by decide), bare]
    rw [FileSystem.linkedPaths, FileSystem.gitFolder, missing] at member
    cases member

theorem absent_modulesTree (place : List String) : modulesTree.root.at? (place ++ [".git"]) = none := by
  revert place
  apply Node.absent_folder rfl
  rw [List.forall_mem_singleton]
  apply Node.absent_folder rfl
  rw [List.forall_mem_singleton]
  apply Node.absent_folder rfl
  rw [List.forall_mem_singleton]
  exact Node.absent_folder rfl nofun

/-- The documents of a repository of one module, made twice. -/
theorem documenting_idempotent_single :
    ∃ catalogue, Scan.run Settings.default modulesTree "repo".toList .none = .ok catalogue ∧
      (Docs.publish Settings.default "repo".toList catalogue modulesTree).failure = none ∧
      Scan.run Settings.default
          (Docs.publish Settings.default "repo".toList catalogue modulesTree).files
          "repo".toList .none = .ok catalogue ∧
      (Docs.publish Settings.default "repo".toList catalogue
        (Docs.publish Settings.default "repo".toList catalogue modulesTree).files).files =
          (Docs.publish Settings.default "repo".toList catalogue modulesTree).files := by
  have scanned : Scan.run Settings.default modulesTree "repo".toList .none =
      .ok [("modules/a", ⟨⟨"modules/a", .empty, [], []⟩, []⟩)] :=
    Except.toOption_eq_some.mp (by decide +kernel)
  have published : (Docs.publish Settings.default "repo".toList
      [("modules/a", ⟨⟨"modules/a", .empty, [], []⟩, []⟩)] modulesTree).failure = none := by
    decide +kernel
  have paths : (Docs.publish Settings.default "repo".toList
      [("modules/a", ⟨⟨"modules/a", .empty, [], []⟩, []⟩)] modulesTree).paths =
        ["repo/README.md".toList, "repo/modules/a/README.md".toList] := by decide +kernel
  have index : (Docs.publish Settings.default "repo".toList
      [("modules/a", ⟨⟨"modules/a", .empty, [], []⟩, []⟩)] modulesTree).files.place
        "repo/README.md".toList = .ok ["repo", "README.md"] := by decide +kernel
  have readme : (Docs.publish Settings.default "repo".toList
      [("modules/a", ⟨⟨"modules/a", .empty, [], []⟩, []⟩)] modulesTree).files.place
        "repo/modules/a/README.md".toList = .ok ["repo", "modules", "a", "README.md"] := by
    decide +kernel
  obtain ⟨again, unchanged⟩ := documenting_idempotent Docs.linkFree_modulesTree wellNamed_modulesTree
    orderly_modulesTree (by decide) (by decide) (by decide) (by decide +kernel) scanned published (by
      intro path written place found rules
      have exclude := rules.of_unknown rfl absent_modulesTree Docs.linkFree_modulesTree
      rw [paths, List.mem_pair] at written
      rcases written with rfl | rfl
      · cases index.symm.trans found
        exact absurd exclude (by decide)
      · cases readme.symm.trans found
        exact absurd exclude (by decide))
  exact ⟨_, scanned, published, again, by rw [unchanged]⟩

/-- A repository that keeps its modules in the folder of git. -/
def gitModulesTree : FileSystem :=
  ⟨.folder [("repo", .folder [(".git", .folder [
    ("Variables", .folder [("main.tf", .file [])]),
    ("info", .folder [("main.tf", .file [])])])])], []⟩

/-- Settings with which the README of a module is the exclude file of git. -/
def excludeSettings : Settings :=
  { Settings.default with modulesDir := ".git", readmeName := "exclude" }

theorem linkFree_gitModulesTree : gitModulesTree.root.LinkFree := by
  have module : (Node.folder [("main.tf", .file [])]).LinkFree := by
    apply Node.linkFree_folder
    rw [List.forall_mem_singleton]
    exact Node.linkFree_file []
  apply Node.linkFree_folder
  rw [List.forall_mem_singleton]
  apply Node.linkFree_folder
  rw [List.forall_mem_singleton]
  apply Node.linkFree_folder
  rw [List.forall_mem_cons, List.forall_mem_singleton]
  exact ⟨module, module⟩

theorem wellNamed_gitModulesTree : gitModulesTree.root.WellNamed := by
  have module : (Node.folder [("main.tf", .file [])]).WellNamed := by
    apply Node.WellNamed.folder (List.forall_mem_singleton.mpr (by decide))
    rw [List.forall_mem_singleton]
    exact .file []
  apply Node.WellNamed.folder (List.forall_mem_singleton.mpr (by decide))
  rw [List.forall_mem_singleton]
  apply Node.WellNamed.folder (List.forall_mem_singleton.mpr (by decide))
  rw [List.forall_mem_singleton]
  apply Node.WellNamed.folder
  · rw [List.forall_mem_cons, List.forall_mem_singleton]
    exact ⟨by decide, by decide⟩
  · rw [List.forall_mem_cons, List.forall_mem_singleton]
    exact ⟨module, module⟩

theorem orderly_gitModulesTree : gitModulesTree.root.Orderly := by
  have module : (Node.folder [("main.tf", .file [])]).Orderly := by
    apply Node.Orderly.folder (List.pairwise_singleton _ _)
    rw [List.forall_mem_singleton]
    exact .file []
  apply Node.Orderly.folder (List.pairwise_singleton _ _)
  rw [List.forall_mem_singleton]
  apply Node.Orderly.folder (List.pairwise_singleton _ _)
  rw [List.forall_mem_singleton]
  apply Node.Orderly.folder
  · exact List.pairwise_pair.mpr (by decide)
  · rw [List.forall_mem_cons, List.forall_mem_singleton]
    exact ⟨module, module⟩

def gitModules : Catalogue :=
  [(".git/Variables", ⟨⟨".git/Variables", .empty, [], []⟩, []⟩),
    (".git/info", ⟨⟨".git/info", .empty, [], []⟩, []⟩)]

/-- The repository with the documents of its modules. -/
def gitModulesDocumented : FileSystem :=
  let readme (folder : String) : Node :=
    .file (Text.Utf8.encode (Docs.readme excludeSettings ⟨⟨folder, .empty, [], []⟩, []⟩))
  ⟨.folder [("repo", .folder [
    (".git", .folder [
      ("Variables", .folder [("exclude", readme ".git/Variables"), ("main.tf", .file [])]),
      ("info", .folder [("exclude", readme ".git/info"), ("main.tf", .file [])])]),
    ("exclude", .file (Text.Utf8.encode (Docs.index excludeSettings gitModules)))])], []⟩

/-- A README that is written to the exclude file of a repository is read as rules by the next scan,
and a line of it hides a module. -/
theorem documents_hide_module :
    gitModulesTree.root.LinkFree ∧ gitModulesTree.root.WellNamed ∧ gitModulesTree.root.Orderly ∧
      Path.Plain excludeSettings.modulesDir.toList ∧
      Path.IsName excludeSettings.readmeName.toList ∧
      excludeSettings.readmeName.toList.head? ≠ some '.' ∧
      excludeSettings.isConfigFile excludeSettings.readmeName.toList = false ∧
      Scan.run excludeSettings gitModulesTree "repo".toList .none = .ok gitModules ∧
      (Docs.publish excludeSettings "repo".toList gitModules gitModulesTree).failure = none ∧
      Scan.run excludeSettings
          (Docs.publish excludeSettings "repo".toList gitModules gitModulesTree).files
          "repo".toList .none ≠ .ok gitModules := by
  have scanned : Scan.run excludeSettings gitModulesTree "repo".toList .none = .ok gitModules :=
    Except.toOption_eq_some.mp (by decide +kernel)
  have documented : (Docs.publish excludeSettings "repo".toList gitModules gitModulesTree).files =
      gitModulesDocumented := by decide +kernel
  have again : Scan.run excludeSettings gitModulesDocumented "repo".toList .none =
      .ok [(".git/info", ⟨⟨".git/info", .empty, [], []⟩, []⟩)] :=
    Except.toOption_eq_some.mp (by decide +kernel)
  refine ⟨linkFree_gitModulesTree, wellNamed_gitModulesTree, orderly_gitModulesTree, by decide,
    by decide, by decide, by decide +kernel, scanned, by decide +kernel, ?_⟩
  rw [documented, again]
  intro same
  have lengths := congrArg List.length (Except.ok.inj same)
  exact absurd lengths (by decide)

end TerraDoc
