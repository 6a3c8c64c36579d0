import TerraDoc.Proofs.BlockRecords
import TerraDoc.Proofs.ScanStability

/-!
What the record of a module is made of. Its configuration files are read one after another, in the
order of their names; each adds its declarations, the main file gives the header, and the first file
that fails decides the failure.
-/

namespace TerraDoc.Module

open Files

variable {settings : Settings} {files : FileSystem} {path : List Char} {paths : List (List Char)}
  {record next : Record} {folder : Folder}

/-- A file is the one that gives the header. -/
def IsMain (settings : Settings) (path : List Char) : Prop :=
  Path.fileName? path = some settings.mainFile.toList

/-- A file is read as text and in the language of configuration files. -/
def Parses (files : FileSystem) (path : List Char) (file : Hcl.File) : Prop :=
  ∃ text, files.readText path = .ok text ∧ Hcl.parse? text = some file

/-- What a file gives to a record: a header, if it is the main file, and declarations. -/
structure Part where
  header : Option Header
  declared : Declarations

/-- A file is read and gives its part. -/
def Adds (settings : Settings) (files : FileSystem) (path : List Char) (part : Part) : Prop :=
  ∃ file, Parses files path file ∧ (part.header.isSome ↔ IsMain settings path) ∧
    (∀ header ∈ part.header, Header.extract file.source = .ok header) ∧
    declarations file.blocks = .ok part.declared

/-- Why a file fails: it cannot be read, it is not in the language, its header is malformed, or a
declaration of it is. -/
inductive Spoils (settings : Settings) (files : FileSystem) (path : List Char) : Failure → Prop where
  | unread {cause : FileError} (fails : files.readText path = .error cause) :
      Spoils settings files path (.file cause)
  | unparsed {text : List Char} (read : files.readText path = .ok text)
      (fails : Hcl.parse? text = none) : Spoils settings files path (.grammar path)
  | header {file : Hcl.File} {cause : HeaderError} (parses : Parses files path file)
      (main : IsMain settings path) (fails : Header.extract file.source = .error cause) :
      Spoils settings files path (.header cause)
  | declaration {file : Hcl.File} {cause : DeclarationError} (parses : Parses files path file)
      (headed : IsMain settings path → ∃ header, Header.extract file.source = .ok header)
      (fails : declarations file.blocks = .error cause) :
      Spoils settings files path (.declaration cause)

/-- The first of some files that fails, and the way it does. -/
def FirstSpoils (settings : Settings) (files : FileSystem) (paths : List (List Char))
    (failure : Failure) : Prop :=
  ∃ before path after, paths = before ++ path :: after ∧
    (∀ other ∈ before, ∃ part, Adds settings files other part) ∧
    Spoils settings files path failure

/-- A record to which a file has been added. -/
def Record.extend (record : Record) (part : Part) : Record :=
  { record with
    header := part.header.getD record.header
    inputs := record.inputs ++ part.declared.inputs
    outputs := record.outputs ++ part.declared.outputs }

theorem readConfig_eq_ok_iff {file : Hcl.File} :
    readConfig files path = .ok file ↔ Parses files path file := by
  rw [readConfig, Except.bind_eq_ok, Parses]
  simp only [Except.mapError_eq_ok]
  apply exists_congr
  intro text
  apply and_congr_right
  intro _
  cases Hcl.parse? text <;> simp [pure, Except.pure]

theorem readConfig_eq_error_iff {failure : Failure} :
    readConfig files path = .error failure ↔
      (∃ cause, files.readText path = .error cause ∧ failure = .file cause) ∨
      ∃ text, files.readText path = .ok text ∧ Hcl.parse? text = none ∧
        failure = .grammar path := by
  rw [readConfig, Except.bind_eq_error]
  simp only [Except.mapError_eq_error, Except.mapError_eq_ok, eq_comm (b := failure)]
  apply or_congr_right
  apply exists_congr
  intro text
  apply and_congr_right
  intro _
  cases Hcl.parse? text <;> simp [pure, Except.pure, eq_comm]

/-- The header that a record has after a file. -/
def headerAfter (settings : Settings) (path : List Char) (file : Hcl.File) (old : Header) :
    Except Failure Header :=
  if Path.fileName? path = some settings.mainFile.toList then
    (Header.extract file.source).mapError .header
  else pure old

theorem addFile_eq :
    record.addFile settings files path = (readConfig files path >>= fun file =>
      headerAfter settings path file record.header >>= fun header =>
      (declarations file.blocks).mapError Failure.declaration >>= fun declared =>
      pure { record with
        header
        inputs := record.inputs ++ declared.inputs
        outputs := record.outputs ++ declared.outputs }) := by
  rw [Record.addFile]
  refine bind_congr fun file => ?_
  rw [headerAfter]
  split <;> rfl

theorem headerAfter_eq_ok_iff {file : Hcl.File} {old header : Header} :
    headerAfter settings path file old = .ok header ↔
      ∃ found : Option Header, (found.isSome ↔ IsMain settings path) ∧
        (∀ own ∈ found, Header.extract file.source = .ok own) ∧ header = found.getD old := by
  rw [headerAfter]
  split
  · rename_i main
    rw [Except.mapError_eq_ok]
    constructor
    · intro read
      exact ⟨some header, iff_of_true rfl main, by simpa using read, rfl⟩
    · intro parts
      obtain ⟨found, own, read, rfl⟩ := parts
      obtain ⟨header, rfl⟩ := Option.isSome_iff_exists.mp (own.mpr main)
      exact read header rfl
  · rename_i other
    rw [Except.pure_eq_ok]
    constructor
    · rintro rfl
      exact ⟨none, iff_of_false (by simp) other, by simp, rfl⟩
    · intro parts
      obtain ⟨found, own, -, rfl⟩ := parts
      cases found with
      | none => rfl
      | some header => exact absurd (own.mp rfl) other

theorem headerAfter_eq_error_iff {file : Hcl.File} {old : Header} {failure : Failure} :
    headerAfter settings path file old = .error failure ↔
      IsMain settings path ∧ ∃ cause, Header.extract file.source = .error cause ∧
        Failure.header cause = failure := by
  rw [headerAfter]
  split
  · rename_i main
    have main : IsMain settings path := main
    rw [Except.mapError_eq_error, and_iff_right main]
  · rename_i other
    constructor
    · intro same
      cases same
    · intro parts
      exact absurd parts.1 other

theorem addFile_eq_ok_iff :
    record.addFile settings files path = .ok next ↔
      ∃ part, Adds settings files path part ∧ next = record.extend part := by
  rw [addFile_eq, Except.bind_eq_ok]
  constructor
  · intro steps
    obtain ⟨file, parses, steps⟩ := steps
    obtain ⟨header, headed, steps⟩ := Except.bind_eq_ok.mp steps
    obtain ⟨declared, declares, same⟩ := Except.bind_eq_ok.mp steps
    obtain ⟨found, main, read, rfl⟩ := headerAfter_eq_ok_iff.mp headed
    cases same
    exact ⟨⟨found, declared⟩, ⟨file, readConfig_eq_ok_iff.mp parses, main, read,
      Except.mapError_eq_ok.mp declares⟩, rfl⟩
  · intro parts
    obtain ⟨⟨found, declared⟩, ⟨file, parses, main, read, declares⟩, rfl⟩ := parts
    exact ⟨file, readConfig_eq_ok_iff.mpr parses, Except.bind_eq_ok.mpr
      ⟨found.getD record.header, headerAfter_eq_ok_iff.mpr ⟨found, main, read, rfl⟩,
        Except.bind_eq_ok.mpr ⟨declared, Except.mapError_eq_ok.mpr declares, rfl⟩⟩⟩

theorem addFile_eq_error_iff {failure : Failure} :
    record.addFile settings files path = .error failure ↔ Spoils settings files path failure := by
  rw [addFile_eq, Except.bind_eq_error]
  constructor
  · intro fails
    rcases fails with unread | ⟨file, parses, fails⟩
    · rcases readConfig_eq_error_iff.mp unread with
        ⟨cause, missing, rfl⟩ | ⟨text, read, unparsed, rfl⟩
      · exact .unread missing
      · exact .unparsed read unparsed
    have parses := readConfig_eq_ok_iff.mp parses
    rcases Except.bind_eq_error.mp fails with malformed | ⟨header, headed, fails⟩
    · obtain ⟨main, cause, wrong, rfl⟩ := headerAfter_eq_error_iff.mp malformed
      exact .header parses main wrong
    rcases Except.bind_eq_error.mp fails with undeclared | ⟨declared, -, none⟩
    · obtain ⟨cause, wrong, rfl⟩ := Except.mapError_eq_error.mp undeclared
      obtain ⟨found, main, read, -⟩ := headerAfter_eq_ok_iff.mp headed
      refine .declaration parses (fun own => ?_) wrong
      obtain ⟨header, rfl⟩ := Option.isSome_iff_exists.mp (main.mpr own)
      exact ⟨header, read header rfl⟩
    · cases none
  · intro spoils
    cases spoils with
    | unread fails => exact .inl (readConfig_eq_error_iff.mpr (.inl ⟨_, fails, rfl⟩))
    | unparsed read fails => exact .inl (readConfig_eq_error_iff.mpr (.inr ⟨_, read, fails, rfl⟩))
    | header parses main fails =>
      refine .inr ⟨_, readConfig_eq_ok_iff.mpr parses, Except.bind_eq_error.mpr (.inl ?_)⟩
      exact headerAfter_eq_error_iff.mpr ⟨main, _, fails, rfl⟩
    | @declaration file cause parses headed fails =>
      obtain ⟨found, main, read⟩ : ∃ found : Option Header, (found.isSome ↔ IsMain settings path) ∧
          ∀ own ∈ found, Header.extract file.source = .ok own := by
        by_cases own : IsMain settings path
        · obtain ⟨header, read⟩ := headed own
          exact ⟨some header, iff_of_true rfl own, by simpa using read⟩
        · exact ⟨none, iff_of_false (by simp) own, by simp⟩
      refine .inr ⟨file, readConfig_eq_ok_iff.mpr parses, Except.bind_eq_error.mpr (.inr
        ⟨_, headerAfter_eq_ok_iff.mpr ⟨found, main, read, rfl⟩, Except.bind_eq_error.mpr (.inl ?_)⟩)⟩
      exact Except.mapError_eq_error.mpr ⟨cause, fails, rfl⟩

theorem foldlM_eq_ok_iff :
    paths.foldlM (Record.addFile settings files) record = .ok next ↔
      ∃ parts, List.Forall₂ (Adds settings files) paths parts ∧
        next = parts.foldl Record.extend record := by
  induction paths generalizing record with
  | nil =>
    rw [List.foldlM_nil, Except.pure_eq_ok]
    simp [eq_comm]
  | cons path rest inductionHypothesis =>
    rw [List.foldlM_cons, Except.bind_eq_ok]
    simp only [addFile_eq_ok_iff, inductionHypothesis, List.forall₂_cons_left_iff]
    constructor
    · intro steps
      obtain ⟨_, ⟨part, adds, rfl⟩, parts, others, rfl⟩ := steps
      exact ⟨part :: parts, ⟨part, parts, adds, others, rfl⟩, rfl⟩
    · intro steps
      obtain ⟨_, ⟨part, parts, adds, others, rfl⟩, rfl⟩ := steps
      exact ⟨_, ⟨part, adds, rfl⟩, parts, others, rfl⟩

/-- The first file that fails decides the failure. -/
theorem foldlM_eq_error_iff {failure : Failure} :
    paths.foldlM (Record.addFile settings files) record = .error failure ↔
      FirstSpoils settings files paths failure := by
  induction paths generalizing record with
  | nil => simp [FirstSpoils, pure, Except.pure]
  | cons first rest inductionHypothesis =>
    rw [List.foldlM_cons, Except.bind_eq_error]
    simp only [addFile_eq_error_iff, inductionHypothesis]
    constructor
    · intro fails
      rcases fails with spoils | ⟨_, added, before, path, after, rfl, others, spoils⟩
      · exact ⟨[], first, rest, rfl, by simp, spoils⟩
      · obtain ⟨part, adds, -⟩ := addFile_eq_ok_iff.mp added
        exact ⟨first :: before, path, after, rfl, List.forall_mem_cons.mpr ⟨⟨part, adds⟩, others⟩,
          spoils⟩
    · intro fails
      obtain ⟨before, path, after, split, others, spoils⟩ := fails
      cases before with
      | nil =>
        obtain ⟨rfl, rfl⟩ := List.cons.inj split
        exact .inl spoils
      | cons other before =>
        obtain ⟨rfl, rfl⟩ := List.cons.inj split
        obtain ⟨⟨part, adds⟩, others⟩ := List.forall_mem_cons.mp others
        exact .inr ⟨_, addFile_eq_ok_iff.mpr ⟨part, adds, rfl⟩, before, path, after, rfl, others,
          spoils⟩

theorem inputs_foldl_extend (record : Record) (parts : List Part) :
    (parts.foldl Record.extend record).inputs =
      record.inputs ++ parts.flatMap (·.declared.inputs) := by
  induction parts generalizing record with
  | nil => simp
  | cons part rest inductionHypothesis =>
    rw [List.foldl_cons, inductionHypothesis, List.flatMap_cons, ← List.append_assoc]
    rfl

theorem outputs_foldl_extend (record : Record) (parts : List Part) :
    (parts.foldl Record.extend record).outputs =
      record.outputs ++ parts.flatMap (·.declared.outputs) := by
  induction parts generalizing record with
  | nil => simp
  | cons part rest inductionHypothesis =>
    rw [List.foldl_cons, inductionHypothesis, List.flatMap_cons, ← List.append_assoc]
    rfl

theorem folderPath_foldl_extend (record : Record) (parts : List Part) :
    (parts.foldl Record.extend record).folderPath = record.folderPath := by
  induction parts generalizing record with
  | nil => rfl
  | cons part rest inductionHypothesis =>
    rw [List.foldl_cons, inductionHypothesis]
    rfl

/-- The header of a record is that of the main file, if there is one. -/
theorem header_foldl_extend {parts : List Part}
    (each : List.Forall₂ (Adds settings files) paths parts)
    (single : paths.Pairwise fun first second => IsMain settings first → ¬ IsMain settings second)
    (record : Record) :
    (∀ path ∈ paths, IsMain settings path → ∃ file, Parses files path file ∧
      Header.extract file.source = .ok (parts.foldl Record.extend record).header) ∧
    ((∀ path ∈ paths, ¬ IsMain settings path) →
      (parts.foldl Record.extend record).header = record.header) := by
  induction each generalizing record with
  | nil => exact ⟨List.forall_mem_nil _, fun _ => rfl⟩
  | @cons path part rest parts adds _ inductionHypothesis =>
    obtain ⟨others, single⟩ := List.pairwise_cons.mp single
    obtain ⟨file, parses, own, read, -⟩ := adds
    obtain ⟨headed, headless⟩ := inductionHypothesis single (record.extend part)
    rw [List.foldl_cons]
    refine ⟨List.forall_mem_cons.mpr ⟨fun main => ⟨file, parses, ?_⟩, headed⟩, fun noMain => ?_⟩
    · obtain ⟨header, found⟩ := Option.isSome_iff_exists.mp (own.mpr main)
      rw [headless fun other member => others other member main, Record.extend, found]
      exact read header found
    · obtain ⟨noMain, later⟩ := List.forall_mem_cons.mp noMain
      have missing : part.header = none := by
        rw [← Option.not_isSome_iff_eq_none, own]
        exact noMain
      rw [headless later, Record.extend, missing]
      rfl

theorem parsed_of_adds {parts : List Part} (each : List.Forall₂ (Adds settings files) paths parts) :
    ∃ parsed, List.Forall₂ (Parses files) paths parsed ∧
      List.Forall₂ (fun file part => declarations file.blocks = .ok part.declared) parsed parts := by
  induction each with
  | nil => exact ⟨[], .nil, .nil⟩
  | cons adds _ inductionHypothesis =>
    obtain ⟨file, parses, -, -, declares⟩ := adds
    obtain ⟨parsed, others, declared⟩ := inductionHypothesis
    exact ⟨file :: parsed, .cons parses others, .cons declares declared⟩

/-- The record that some files make: what they declare, file by file, and the header of the main
file. -/
structure Makes (settings : Settings) (files : FileSystem) (folder : Folder)
    (paths : List (List Char)) (record : Record) : Prop where
  folderPath : record.folderPath = folder.relative
  declared : ∃ parsed parts, List.Forall₂ (Parses files) paths parsed ∧
    List.Forall₂ (fun file part => declarations file.blocks = .ok part) parsed parts ∧
    record.inputs = parts.flatMap (·.inputs) ∧ record.outputs = parts.flatMap (·.outputs)
  headed : ∀ path ∈ paths, IsMain settings path → ∃ file, Parses files path file ∧
    Header.extract file.source = .ok record.header
  headless : (∀ path ∈ paths, ¬ IsMain settings path) → record.header = .empty

theorem assemble_eq_ok_iff : assemble settings files folder = .ok record ↔
    ∃ paths parts, configFiles settings files folder.path = .ok paths ∧
      List.Forall₂ (Adds settings files) paths parts ∧
      record = parts.foldl Record.extend ⟨folder.relative, .empty, [], []⟩ := by
  rw [assemble, Except.bind_eq_ok]
  simp only [Except.mapError_eq_ok, foldlM_eq_ok_iff, exists_and_left]

theorem makes_of_assemble (listed : configFiles settings files folder.path = .ok paths)
    (single : paths.Pairwise fun first second => IsMain settings first → ¬ IsMain settings second)
    (assembled : assemble settings files folder = .ok record) :
    Makes settings files folder paths record := by
  obtain ⟨_, parts, listed', each, rfl⟩ := assemble_eq_ok_iff.mp assembled
  cases listed.symm.trans listed'
  obtain ⟨parsed, parses, declared⟩ := parsed_of_adds each
  obtain ⟨headed, headless⟩ := header_foldl_extend each single ⟨folder.relative, .empty, [], []⟩
  refine ⟨folderPath_foldl_extend _ parts,
    ⟨parsed, parts.map (·.declared), parses, ?_, ?_, ?_⟩, headed, headless⟩
  · rwa [List.forall₂_map_right_iff]
  · rw [inputs_foldl_extend, List.flatMap_map, List.nil_append]
  · rw [outputs_foldl_extend, List.flatMap_map, List.nil_append]

theorem assemble_eq_error_iff (listed : configFiles settings files folder.path = .ok paths)
    {failure : Failure} :
    assemble settings files folder = .error failure ↔
      FirstSpoils settings files paths failure := by
  rw [assemble, listed]
  exact foldlM_eq_error_iff

/-- The blocks of some files that declare variables. -/
def variableBlocks (parsed : List Hcl.File) : List Hcl.Block :=
  (parsed.flatMap (·.blocks)).filter (·.kind = "variable")

theorem variables_of_parts {parsed : List Hcl.File} {parts : List Part}
    (each : List.Forall₂ (fun file part => declarations file.blocks = .ok part.declared)
      parsed parts) :
    List.Forall₂ IsVariable (variableBlocks parsed) (parts.flatMap (·.declared.inputs)) := by
  induction each with
  | nil => exact .nil
  | cons declares _ inductionHypothesis =>
    rw [variableBlocks, List.flatMap_cons, List.filter_append, List.flatMap_cons]
    exact List.rel_append (declarations_eq_ok_iff.mp declares).1 inductionHypothesis

theorem labels_eq_names {blocks : List Hcl.Block} {inputs : List Variable}
    (each : List.Forall₂ IsVariable blocks inputs) :
    blocks.map (·.labels.head?) = inputs.map fun declared => some declared.name := by
  induction each with
  | nil => rfl
  | cons declared _ inductionHypothesis =>
    rw [List.map_cons, List.map_cons, declared.named.1, inductionHypothesis]

theorem names_nonempty {blocks : List Hcl.Block} {inputs : List Variable}
    (each : List.Forall₂ IsVariable blocks inputs) :
    ∀ declared ∈ inputs, declared.name ≠ "" := by
  induction each with
  | nil => exact List.forall_mem_nil _
  | cons declared _ inductionHypothesis =>
    exact List.forall_mem_cons.mpr ⟨declared.named.2, inductionHypothesis⟩

/-- The variables of a module are named, and they are as many as its files have variable blocks, in
the order of these: none is left out, and none is merged with another one. So their names are
distinct just when no two of the blocks have the same label. -/
theorem variables_named_by_blocks (assembled : assemble settings files folder = .ok record) :
    ∃ paths parsed, configFiles settings files folder.path = .ok paths ∧
      List.Forall₂ (Parses files) paths parsed ∧
      List.Forall₂ IsVariable (variableBlocks parsed) record.inputs ∧
      (∀ declared ∈ record.inputs, declared.name ≠ "") ∧
      ((record.inputs.map (·.name)).Nodup ↔ (variableBlocks parsed).Pairwise
        fun first second => first.labels.head? ≠ second.labels.head?) := by
  obtain ⟨paths, parts, listed, each, rfl⟩ := assemble_eq_ok_iff.mp assembled
  obtain ⟨parsed, parses, declared⟩ := parsed_of_adds each
  have records := variables_of_parts declared
  rw [inputs_foldl_extend, List.nil_append]
  refine ⟨paths, parsed, listed, parses, records,
    names_nonempty records, ?_⟩
  have distinct : (variableBlocks parsed).Pairwise
      (fun first second => first.labels.head? ≠ second.labels.head?) ↔
      ((variableBlocks parsed).map (·.labels.head?)).Nodup := List.pairwise_map.symm
  have inner (names : List String) : (names.map some).Nodup ↔ names.Nodup :=
    List.nodup_map_iff fun _ _ => Option.some.inj
  rw [distinct, labels_eq_names records, ← inner, List.map_map]
  rfl

/-- A module of two files that declare variables of one name. -/
def repeatingTree : FileSystem :=
  ⟨.folder [("m", .folder [
    ("a.tf", .file (Text.Utf8.encode "variable \"x\" \x7b\x7d\n".toList)),
    ("b.tf", .file (Text.Utf8.encode "variable \"x\" \x7b\x7d\n".toList))])], []⟩

/-- A variable without a description, a type or a default. -/
def Variable.named (name : String) : Variable :=
  ⟨name, "", "", "", false⟩

theorem assemble_repeatingTree :
    assemble Settings.default repeatingTree ⟨"m".toList, "m"⟩ =
      .ok ⟨"m", .empty, [.named "x", .named "x"], []⟩ :=
  Except.toOption_eq_some.mp (by decide +kernel)

/-- Two files may declare variables of one name. Both are in the record of their module. -/
theorem variable_names_repeat :
    ∃ record, assemble Settings.default repeatingTree ⟨"m".toList, "m"⟩ = .ok record ∧
      ¬ (record.inputs.map (·.name)).Nodup :=
  ⟨_, assemble_repeatingTree, by decide⟩

/-- The variable blocks of the two files have the same label. -/
theorem variables_named_by_blocks_repeating :
    ∃ record parsed, assemble Settings.default repeatingTree ⟨"m".toList, "m"⟩ = .ok record ∧
      List.Forall₂ IsVariable (variableBlocks parsed) record.inputs ∧
      record.inputs.map (·.name) = ["x", "x"] ∧
      ¬ (variableBlocks parsed).Pairwise fun first second =>
        first.labels.head? ≠ second.labels.head? := by
  obtain ⟨_, parsed, -, -, records, -, distinct⟩ := variables_named_by_blocks assemble_repeatingTree
  exact ⟨_, parsed, assemble_repeatingTree, records, rfl, distinct.not.mp (by decide)⟩

end TerraDoc.Module
