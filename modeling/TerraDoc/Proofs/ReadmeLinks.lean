import TerraDoc.Proofs.ScanOrder
import TerraDoc.Proofs.TableRows

/-!
Where links lead. A README is linked from the index by its folder and from the modules beside it by
its name alone, and it is written to a path of its own: all of them name one file.
-/

namespace TerraDoc

open Files

namespace Path

/-- A step from a place, by names alone: a step up takes back the name before it. -/
def follow (place : List (List Char)) (step : List Char) : List (List Char) :=
  if step = ['.', '.'] ∧ place.getLast?.any (· ≠ ['.', '.']) then place.dropLast
  else place ++ [step]

/-- Resolved by names alone against a folder, a target is this path. -/
structure Resolves (folder target path : List Char) : Prop where
  relative : isAbsolute target = false
  start : isAbsolute path = isAbsolute folder
  names : names path = (names target).foldl follow (names folder)

theorem follow_up (place : List (List Char)) {name : List Char} (ordinary : IsName name) :
    follow (place ++ [name]) ['.', '.'] = place := by
  simp [follow, ordinary.up]

theorem foldl_follow (place : List (List Char)) {steps : List (List Char)}
    (down : ['.', '.'] ∉ steps) : steps.foldl follow place = place ++ steps := by
  induction steps generalizing place with
  | nil => simp
  | cons step rest inductionHypothesis =>
    obtain ⟨other, later⟩ := List.ne_and_not_mem_of_not_mem_cons down
    have here : follow place step = place ++ [step] := if_neg fun up => other up.1.symm
    rw [List.foldl_cons, here, inductionHypothesis _ later, List.append_assoc,
      List.singleton_append]

theorem resolves_beside (parent : List Char) {name other path : List Char}
    (ordinary : IsName name) (ordinary' : IsName other) (down : Descends path) :
    Resolves (join parent name) (['.', '.'] ++ '/' :: (other ++ '/' :: path))
      (join (join parent other) path) := by
  have target : names (['.', '.'] ++ '/' :: (other ++ '/' :: path)) =
      ['.', '.'] :: other :: names path := by
    rw [names_append, names_append, ordinary'.names_eq]
    rfl
  constructor
  · rfl
  · rw [isAbsolute_join _ down.relative, isAbsolute_join _ ordinary'.descends.relative,
      isAbsolute_join _ ordinary.descends.relative]
  · rw [target, names_join _ down.relative, names_join _ ordinary'.descends.relative,
      names_join _ ordinary.descends.relative, ordinary.names_eq, ordinary'.names_eq,
      List.foldl_cons, follow_up _ ordinary, foldl_follow, List.append_assoc,
      List.singleton_append]
    rw [List.mem_cons, not_or]
    exact ⟨ordinary'.up.symm, down.down⟩

end Path

namespace Module

/-- The name of a module in the documents leads on from the repository, to a folder. -/
structure IsKey (key : List Char) : Prop where
  nonempty : key ≠ []
  relative : Path.isAbsolute key = false
  last : key.getLast? ≠ some '/'

theorem isKey_relative {files : FileSystem} {repository modulesDir : List Char}
    {folders : List Folder} {folder : Folder} (wellNamed : files.root.WellNamed)
    (own : ∃ c ∈ modulesDir, c ≠ '/')
    (found : discover files repository modulesDir = .ok folders) (member : folder ∈ folders) :
    IsKey folder.relative.toList := by
  obtain ⟨name, ordinary, -, relative⟩ := mem_discover wellNamed found member
  obtain ⟨nonempty, first, -⟩ := modulesFolder_ends own
  rw [relative]
  constructor
  · simp
  · rw [Path.isAbsolute_append nonempty, first]
  · intro slash
    rw [List.getLast?_append_of_ne_nil _ (List.cons_ne_nil _ _),
      List.getLast?_cons_of_ne_nil ordinary.nonempty] at slash
    exact ordinary.single (List.mem_of_getLast? slash)

end Module

namespace Scan

variable {settings : Settings} {files : FileSystem} {repository : List Char}
  {history : HistorySource} {folders : List Module.Folder} {catalogue : Catalogue}

theorem isKey_of_run (wellNamed : files.root.WellNamed)
    (own : ∃ c ∈ settings.modulesDir.toList, c ≠ '/')
    (ran : run settings files repository history = .ok catalogue) :
    ∀ entry ∈ catalogue, Module.IsKey entry.1.toList := by
  intro entry member
  obtain ⟨folders, found, -⟩ := Except.bind_eq_ok.mp ran
  obtain ⟨folder, inside, same, -⟩ := mem_run found ran member
  rw [same]
  exact Module.isKey_relative wellNamed own (Except.mapError_eq_ok.mp found) inside

/-- Every folder that is found is documented under its key. -/
theorem documented_of_found (wellNamed : files.root.WellNamed)
    (own : ∃ c ∈ settings.modulesDir.toList, c ≠ '/')
    (found : Module.discover files repository settings.modulesDir.toList = .ok folders)
    (ran : run settings files repository history = .ok catalogue) {folder : Module.Folder}
    (member : folder ∈ folders) :
    ∃ documented, document settings files history folder = .ok documented ∧
      (folder.relative, documented) ∈ catalogue := by
  have scanned : Scan.folders settings files repository = .ok folders :=
    Except.mapError_eq_ok.mpr found
  have collected := ran
  rw [run_eq scanned] at collected
  obtain ⟨modules, each, same⟩ := Except.bind_eq_ok.mp collected
  cases same
  obtain ⟨⟨key, first⟩, inside, given⟩ :=
    exists_of_mem_left (Except.mapM_eq_ok_iff.mp each) member
  obtain rfl : key = folder.relative := (keyed_eq_ok_iff.mp given).1
  -- the last module with this key is found under it, and it is the one of this folder
  have known : ((Dictionary.ofList modules).find? folder.relative).isSome := by
    rw [Dictionary.find?_ofList, List.lookup_isSome_iff]
    exact ⟨_, List.mem_reverse.mpr inside, beq_self_eq_true _⟩
  obtain ⟨documented, last⟩ := Option.isSome_iff_exists.mp known
  have listed := Dictionary.mem_of_find? last
  obtain ⟨other, among, relative, read⟩ := mem_run scanned ran listed
  have path : other.path = folder.path := by
    rw [← Module.join_relative wellNamed own found among, ← relative,
      Module.join_relative wellNamed own found member]
  obtain rfl : other = folder := by
    cases other
    cases folder
    simp_all
  exact ⟨documented, read, listed⟩

end Scan

namespace Docs

open Markdown

variable {settings : Settings} {repository : List Char} {catalogue : Catalogue}

theorem paths_of_success {documents : List (List Char × List Char)} {files : FileSystem}
    (success : (writeEach documents files).failure = none) :
    (writeEach documents files).paths = documents.map Prod.fst := by
  induction documents generalizing files with
  | nil => rfl
  | cons document rest inductionHypothesis =>
    rw [writeEach] at success ⊢
    split at success
    · cases success
    · exact congrArg _ (inductionHypothesis success)

theorem mem_documents {folder : String} {documented : DocumentedModule}
    (member : (folder, documented) ∈ catalogue) :
    (Path.join (Path.join repository folder.toList) settings.readmeName.toList,
      readme settings documented) ∈ documents settings repository catalogue :=
  List.mem_cons_of_mem _ (List.mem_map.mpr ⟨(folder, documented), member, rfl⟩)

theorem join_below {key name : List Char} (isKey : Module.IsKey key)
    (relative : Path.isAbsolute name = false) :
    Path.join repository (below key name) = Path.join (Path.join repository key) name :=
  (Path.join_join repository isKey.nonempty isKey.relative isKey.last relative).symm

/-- No two documents have one path. -/
theorem nodup_documents (ordered : Dictionary.Ordered catalogue)
    (keys : ∀ entry ∈ catalogue, Module.IsKey entry.1.toList)
    (relative : Path.isAbsolute settings.readmeName.toList = false) :
    ((documents settings repository catalogue).map Prod.fst).Nodup := by
  have spelled : ∀ entry ∈ catalogue,
      Path.join (Path.join repository entry.1.toList) settings.readmeName.toList =
        Path.front repository ++ (entry.1.toList ++ '/' :: settings.readmeName.toList) := by
    intro entry member
    have isKey := keys entry member
    rw [← join_below isKey relative, Path.join_eq, below]
    rw [below, Path.isAbsolute_append isKey.nonempty]
    exact isKey.relative
  rw [documents, List.map_cons, List.map_map, List.nodup_cons]
  constructor
  · intro among
    obtain ⟨entry, member, same⟩ := List.mem_map.mp among
    dsimp only [Function.comp_apply] at same
    rw [spelled entry member, Path.join_eq _ relative] at same
    have lengths := congrArg List.length (List.append_cancel_left same)
    simp only [List.length_append, List.length_cons] at lengths
    omega
  · rw [List.Nodup, List.pairwise_map]
    apply ordered.imp_of_mem
    intro first second member member' smaller same
    dsimp only [Function.comp_apply] at same
    rw [spelled first member, spelled second member',
      List.append_right_inj, List.append_left_inj] at same
    rw [String.toList_inj.mp same] at smaller
    exact String.lt_irrefl _ smaller

/-- A text is a section in which one line for each of these names links to the file `target` in the
folder of that name beside this one. Without names there is no section. -/
inductive IsLinkSection (title : String) (target : List Char) : List String → List Char → Prop where
  | none : IsLinkSection title target [] []
  | bullets {names : List String} (some : names ≠ []) : IsLinkSection title target names
      (title.toList ++ "\n------\n\n".toList ++
        names.flatMap (fun name => "* [".toList ++ name.toList ++ "](../".toList ++ name.toList ++
          '/' :: target ++ ")\n".toList) ++ ['\n'])

theorem siblings_section (settings : Settings) (title : String) (names : List String) :
    IsLinkSection title settings.readmeName.toList names (siblings settings title names) := by
  cases names with
  | nil => exact .none
  | cons name rest =>
    have bullets : IsLinkSection title settings.readmeName.toList (name :: rest) _ :=
      .bullets (by simp)
    convert bullets using 1
    simp [siblings, heading2, paragraph, line, bullet, link, below, List.flatMap_def]

theorem readme_links (settings : Settings) (documented : DocumentedModule) :
    ∃ front depends works back,
      readme settings documented = front ++ depends ++ works ++ back ∧
      IsLinkSection "Depends on" settings.readmeName.toList
        documented.module.header.dependencies depends ∧
      IsLinkSection "Works with" settings.readmeName.toList
        documented.module.header.partners works := by
  refine ⟨heading1 documented.module.header.title.toList ++
      paragraph documented.module.header.description.toList, _, _,
    releases documented ++ inputs documented.module ++ outputs documented.module, ?_,
    siblings_section settings _ _, siblings_section settings _ _⟩
  simp only [readme, List.append_assoc]

theorem unbroken_foldBreaks (text : List Char) : ∀ c ∈ foldBreaks text, c ≠ '\n' ∧ c ≠ '\r' := by
  fun_induction foldBreaks text with
  | case1 => simp
  | case2 rest inductionHypothesis => simpa using inductionHypothesis
  | case3 c rest _ inductionHypothesis =>
    refine List.forall_mem_cons.mpr ⟨?_, inductionHypothesis⟩
    split
    · decide
    · rename_i neither
      rwa [not_or, and_comm] at neither

theorem foldBreaks_of_unbroken {text : List Char} (unbroken : ∀ c ∈ text, c ≠ '\n' ∧ c ≠ '\r') :
    foldBreaks text = text := by
  induction text with
  | nil => rfl
  | cons c rest inductionHypothesis =>
    obtain ⟨⟨feed, back⟩, later⟩ := List.forall_mem_cons.mp unbroken
    rw [foldBreaks, inductionHypothesis later, if_neg (by simp [feed, back])]
    exact fun _ same => absurd same back

theorem foldBreaks_eq_self_iff {text : List Char} :
    foldBreaks text = text ↔ ∀ c ∈ text, c ≠ '\n' ∧ c ≠ '\r' := by
  constructor
  · intro same
    rw [← same]
    exact unbroken_foldBreaks text
  · exact foldBreaks_of_unbroken

theorem foldBreaks_append {front : List Char} (unbroken : ∀ c ∈ front, c ≠ '\n' ∧ c ≠ '\r')
    (text : List Char) : foldBreaks (front ++ text) = front ++ foldBreaks text := by
  induction front with
  | nil => rfl
  | cons c rest inductionHypothesis =>
    obtain ⟨⟨feed, back⟩, later⟩ := List.forall_mem_cons.mp unbroken
    rw [List.cons_append, foldBreaks, inductionHypothesis later, if_neg (by simp [feed, back])]
    · rfl
    · exact fun _ same => absurd same back

theorem foldBreaks_concat (text : List Char) {c : Char} (plain : c ≠ '\n' ∧ c ≠ '\r') :
    foldBreaks (text ++ [c]) = foldBreaks text ++ [c] := by
  fun_induction foldBreaks text with
  | case1 => exact foldBreaks_of_unbroken (List.forall_mem_singleton.mpr plain)
  | case2 rest inductionHypothesis =>
    rw [List.cons_append, List.cons_append, foldBreaks, inductionHypothesis, List.cons_append]
  | case3 d rest single inductionHypothesis =>
    rw [List.cons_append, foldBreaks, inductionHypothesis, List.cons_append]
    intro others back split
    cases rest with
    | nil => exact plain.1 (List.cons.inj split).1
    | cons e rest => exact single rest back (by rw [(List.cons.inj split).1])

theorem index_links (settings : Settings) (catalogue : Catalogue) :
    ∃ front modules, index settings catalogue = front ++ modules ∧
      IsTableSection "Modules" ["Module", "Description", "Link"]
        ((catalogue.filter (·.2.module.header.title ≠ "")).map fun entry =>
          [entry.2.module.header.title.toList, entry.2.module.header.description.toList,
            "[more details](".toList ++
              (entry.1.toList ++ '/' :: settings.readmeName.toList ++ [')'])]) modules :=
  ⟨_, _, List.append_assoc _ _ _, modules_section settings catalogue⟩

theorem foldBreaks_link (target : List Char) :
    foldBreaks ("[more details](".toList ++ (target ++ [')'])) =
      "[more details](".toList ++ (foldBreaks target ++ [')']) := by
  rw [foldBreaks_append (by simp), foldBreaks_concat target (by decide)]

end Docs

section

open Docs Markdown

variable {settings : Settings} {files : FileSystem} {repository : List Char}
  {history : HistorySource} {folders : List Module.Folder} {catalogue : Catalogue}

theorem Docs.resolves_sibling (wellNamed : files.root.WellNamed)
    (down : Path.Descends settings.readmeName.toList)
    (found : Module.discover files repository settings.modulesDir.toList = .ok folders)
    {folder sibling : Module.Folder} (member : folder ∈ folders) (beside : sibling ∈ folders)
    {named : String} (same : sibling.name = named.toList) :
    Path.Resolves folder.path ("../".toList ++ named.toList ++ '/' :: settings.readmeName.toList)
      (Path.join sibling.path settings.readmeName.toList) := by
  obtain ⟨name, ordinary, place, -⟩ := Module.mem_discover wellNamed found member
  obtain ⟨other, ordinary', place', -⟩ := Module.mem_discover wellNamed found beside
  obtain rfl : other = named.toList := by
    rw [← same, Module.Folder.name, place', Path.fileName?_join _ ordinary', Option.getD_some]
  rw [place, place']
  exact Path.resolves_beside _ ordinary ordinary' down

/-- Links lead to the files that were written, if the folder of the modules has a name and READMEs
are called by one name. Every document is written, to a path of its own. From the repository, the
target in the index's row of a module leads to where its README went; the table shows this target as
it is, unless there are line breaks in it, which become blanks. The README of a module is in its
folder, and if a module that it depends on or works with has been found beside it, the target in the
line about that one leads from there to its README. -/
theorem links_lead_to_readmes (wellNamed : files.root.WellNamed)
    (own : ∃ c ∈ settings.modulesDir.toList, c ≠ '/')
    (ordinary : Path.IsName settings.readmeName.toList)
    (found : Module.discover files repository settings.modulesDir.toList = .ok folders)
    (scanned : Scan.run settings files repository history = .ok catalogue) (later : FileSystem)
    (written : (publish settings repository catalogue later).failure = none) :
    let name := settings.readmeName.toList
    let documents := documents settings repository catalogue
    (publish settings repository catalogue later).paths = documents.map Prod.fst ∧
    (documents.map Prod.fst).Nodup ∧
    (∃ front modules, index settings catalogue = front ++ modules ∧
      IsTableSection "Modules" ["Module", "Description", "Link"]
        ((catalogue.filter (·.2.module.header.title ≠ "")).map fun entry =>
          [entry.2.module.header.title.toList, entry.2.module.header.description.toList,
            "[more details](".toList ++ (entry.1.toList ++ '/' :: name ++ [')'])]) modules) ∧
    (∀ entry ∈ catalogue, let target := entry.1.toList ++ '/' :: name
      (Path.join repository target, readme settings entry.2) ∈ documents ∧
      foldBreaks ("[more details](".toList ++ (target ++ [')'])) =
        "[more details](".toList ++ (foldBreaks target ++ [')']) ∧
      (foldBreaks target = target ↔ ∀ c ∈ target, c ≠ '\n' ∧ c ≠ '\r')) ∧
    ∀ entry ∈ catalogue, ∃ folder ∈ folders, entry.1 = folder.relative ∧
      Scan.document settings files history folder = .ok entry.2 ∧
      (Path.join folder.path name, readme settings entry.2) ∈ documents ∧
      (∃ front depends works back,
        readme settings entry.2 = front ++ depends ++ works ++ back ∧
        IsLinkSection "Depends on" name entry.2.module.header.dependencies depends ∧
        IsLinkSection "Works with" name entry.2.module.header.partners works) ∧
      ∀ named ∈ entry.2.module.header.dependencies ++ entry.2.module.header.partners,
        ∀ sibling ∈ folders, sibling.name = named.toList →
          Path.Resolves folder.path ("../".toList ++ named.toList ++ '/' :: name)
            (Path.join sibling.path name) ∧
          ∃ documented, Scan.document settings files history sibling = .ok documented ∧
            (Path.join sibling.path name, readme settings documented) ∈ documents := by
  intro name documents
  have down : Path.Descends name := ordinary.descends
  have keys := Scan.isKey_of_run wellNamed own scanned
  have readmes : ∀ folder ∈ folders, ∀ documented, (folder.relative, documented) ∈ catalogue →
      (Path.join folder.path name, readme settings documented) ∈ documents := by
    intro folder inside documented listed
    rw [← Module.join_relative wellNamed own found inside]
    exact mem_documents listed
  refine ⟨paths_of_success written,
    nodup_documents (Scan.ordered_of_run scanned) keys down.relative,
    index_links settings catalogue, ?_, ?_⟩
  · intro entry member target
    refine ⟨?_, foldBreaks_link target, foldBreaks_eq_self_iff⟩
    change (Path.join repository (below entry.1.toList name), _) ∈ documents
    rw [join_below (keys entry member) down.relative]
    exact mem_documents member
  · intro entry member
    obtain ⟨folder, inside, same, read⟩ :=
      Scan.mem_run (Except.mapError_eq_ok.mpr found) scanned member
    refine ⟨folder, inside, same, read, readmes folder inside entry.2 (same ▸ member),
      readme_links settings entry.2, ?_⟩
    intro named _ sibling beside called
    obtain ⟨documented, read', listed⟩ :=
      Scan.documented_of_found wellNamed own found scanned beside
    exact ⟨resolves_sibling wellNamed down found inside beside called, documented, read',
      readmes sibling beside documented listed⟩

/-- Two modules, of which the first depends on the second. -/
def linkedTree : FileSystem :=
  ⟨.folder [("repo", .folder [("modules", .folder [
    ("a", .folder [("main.tf",
      .file (Text.Utf8.encode "/*\ntitle: A\ndesc: First.\ndepends: b\n*/\n".toList))]),
    ("b", .folder [("main.tf",
      .file (Text.Utf8.encode "/*\ntitle: B\ndesc: Second.\n*/\n".toList))])])])], []⟩

def linkedSettings : Settings :=
  { Settings.default with modulesDir := "/modules//" }

def linkedModules : Catalogue :=
  [("modules/a", ⟨⟨"modules/a", ⟨"A", "First.", [], ["b"]⟩, [], []⟩, []⟩),
    ("modules/b", ⟨⟨"modules/b", ⟨"B", "Second.", [], []⟩, [], []⟩, []⟩)]

theorem wellNamed_linkedTree : linkedTree.root.WellNamed := by
  have file : Path.IsName "main.tf".toList := by decide
  have module (content : List UInt8) : (Node.folder [("main.tf", .file content)]).WellNamed :=
    .folder (List.forall_mem_singleton.mpr file) (List.forall_mem_singleton.mpr (.file content))
  refine .folder (List.forall_mem_singleton.mpr (by decide)) (List.forall_mem_singleton.mpr ?_)
  refine .folder (List.forall_mem_singleton.mpr (by decide)) (List.forall_mem_singleton.mpr ?_)
  apply Node.WellNamed.folder
  · rw [List.forall_mem_cons, List.forall_mem_singleton]
    exact ⟨by decide, by decide⟩
  · rw [List.forall_mem_cons, List.forall_mem_singleton]
    exact ⟨module _, module _⟩

/-- The first module is linked from the index, and it links the second. -/
theorem links_lead_to_readmes_two :
    Scan.run linkedSettings linkedTree "repo".toList .none = .ok linkedModules ∧
      let paths := (publish linkedSettings "repo".toList linkedModules linkedTree).paths
      Path.join "repo".toList "modules/a/README.md".toList ∈ paths ∧
      Path.Resolves "repo/modules/a".toList "../b/README.md".toList
        "repo/modules/b/README.md".toList ∧
      "repo/modules/b/README.md".toList ∈ paths := by
  have found : Module.discover linkedTree "repo".toList linkedSettings.modulesDir.toList =
      .ok [⟨"repo/modules/a".toList, "modules/a"⟩, ⟨"repo/modules/b".toList, "modules/b"⟩] := by
    decide +kernel
  have scanned : Scan.run linkedSettings linkedTree "repo".toList .none = .ok linkedModules :=
    Except.toOption_eq_some.mp (by decide +kernel)
  have written :
      (publish linkedSettings "repo".toList linkedModules linkedTree).failure = none := by
    decide +kernel
  have own : ∃ c ∈ linkedSettings.modulesDir.toList, c ≠ '/' := ⟨'m', by decide, by decide⟩
  have ordinary : Path.IsName linkedSettings.readmeName.toList := by decide
  obtain ⟨paths, -, -, index, readmes⟩ :=
    links_lead_to_readmes wellNamed_linkedTree own ordinary found scanned linkedTree written
  obtain ⟨folder, among, same, -, -, -, beside⟩ := readmes _ List.mem_cons_self
  obtain ⟨resolves, _, -, listed⟩ := beside "b" (by decide)
    ⟨"repo/modules/b".toList, "modules/b"⟩ (by decide) (by decide)
  obtain rfl : folder = ⟨"repo/modules/a".toList, "modules/a"⟩ := by
    rcases List.mem_pair.mp among with rfl | rfl
    · rfl
    · exact absurd same (by decide)
  refine ⟨scanned, ?_, resolves, ?_⟩
  · rw [paths]
    exact List.mem_map_of_mem (index _ List.mem_cons_self).1
  · rw [paths]
    exact List.mem_map_of_mem listed

end

end TerraDoc
