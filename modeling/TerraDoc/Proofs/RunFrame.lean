import TerraDoc.CommandLine.Run
import TerraDoc.Proofs.ArgumentReading
import TerraDoc.Proofs.ScanOrder

/-!
What a run may not touch. Everything before the documents are written only reads the files, so a
run that fails there, or that is not asked for documents, leaves the files as they were.
-/

namespace TerraDoc.CommandLine

open Files

/-- Over given files a task comes to a result, and it leaves these files and writes none. -/
def Reads {α : Type} (task : Task α) (files : FileSystem) (result : Except Failure α) : Prop :=
  ∀ world : World, world.files = files →
    ∃ later : World, task.run world = (result, later) ∧ later.files = files ∧
      later.written = world.written

/-- What git answers in the folder of a repository. -/
def answer (program : Git.Program) (files : FileSystem) (repository : List Char)
    (query : Git.Query) : Git.Run :=
  match files.enter repository with
  | .error cause => .notStarted cause.message
  | .ok () => program query.arguments

namespace Reads

variable {α β : Type} {files : FileSystem} {task : Task α} {rest : α → Task β}

theorem pure (a : α) : Reads (Pure.pure a) files (.ok a) :=
  fun world same => ⟨world, rfl, same, rfl⟩

theorem throw (failure : Failure) :
    Reads (MonadExcept.throw failure : Task α) files (.error failure) :=
  fun world same => ⟨world, rfl, same, rfl⟩

theorem lift (result : Except Failure α) : Reads (liftM result : Task α) files result :=
  fun world same => ⟨world, rfl, same, rfl⟩

theorem run_bind (world : World) :
    (task >>= rest).run world =
      (match task.run world with
      | (.ok a, middle) => (rest a).run middle
      | (.error failure, middle) => (.error failure, middle)) := by
  rw [ExceptT.run_bind]
  change (StateT.bind task.run _ : StateM World _) world = _
  rw [StateT.bind]
  rcases task.run world with ⟨result, middle⟩
  cases result with
  | ok a => rfl
  | error failure => rfl

theorem bind_ok {a : α} {result : Except Failure β} (first : Reads task files (.ok a))
    (next : Reads (rest a) files result) : Reads (task >>= rest) files result := by
  intro world same
  obtain ⟨middle, ran, kept, unwritten⟩ := first world same
  obtain ⟨later, ran', kept', unwritten'⟩ := next middle kept
  refine ⟨later, ?_, kept', unwritten'.trans unwritten⟩
  rw [run_bind, ran]
  exact ran'

theorem bind_error {failure : Failure} (first : Reads task files (.error failure)) :
    Reads (task >>= rest) files (.error failure) := by
  intro world same
  obtain ⟨middle, ran, kept, unwritten⟩ := first world same
  refine ⟨middle, ?_, kept, unwritten⟩
  rw [run_bind, ran]

theorem bind {result : Except Failure α} {results : α → Except Failure β}
    (first : Reads task files result)
    (next : ∀ a, result = .ok a → Reads (rest a) files (results a)) :
    Reads (task >>= rest) files (result >>= results) := by
  cases result with
  | ok a => exact first.bind_ok (next a rfl)
  | error failure => exact first.bind_error

theorem get (files : FileSystem) : Reads Task.files files (.ok files) := by
  intro world same
  refine ⟨world, ?_, same, rfl⟩
  rw [← same]
  rfl

theorem modify {change : World → World} (kept : ∀ world, (change world).files = world.files)
    (unwritten : ∀ world, (change world).written = world.written) :
    Reads (modify change : Task Unit) files (.ok ()) :=
  fun world same => ⟨change world, rfl, (kept world).trans same, unwritten world⟩

theorem print (text : List Char) : Reads (Task.print text) files (.ok ()) :=
  modify (fun _ => rfl) fun _ => rfl

theorem ask (program : Git.Program) (repository : List Char) (query : Git.Query) :
    Reads (Task.ask program repository query) files
      (.ok (answer program files repository query)) := by
  apply (get files).bind_ok
  rw [answer]
  cases files.enter repository with
  | error cause => exact pure _
  | ok entered =>
    dsimp only
    cases program query.arguments with
    | notStarted reason => exact pure _
    | ended status output errors =>
      apply bind_ok
      · exact modify (fun _ => rfl) fun _ => rfl
      · exact pure _

theorem forEach {list : List α} {results : α → β}
    (each : ∀ a, Reads (rest a) files (.ok (results a))) :
    Reads (forIn list PUnit.unit fun a _ => do
      let _ ← rest a
      return ForInStep.yield PUnit.unit) files (.ok PUnit.unit) := by
  induction list with
  | nil => exact pure ()
  | cons a rest inductionHypothesis =>
    rw [List.forIn_cons]
    apply bind_ok
    · exact (each a).bind_ok (pure _)
    · exact inductionHypothesis

end Reads

variable {files : FileSystem} {program : Git.Program} {request : Request}

/-- The history that a request asks for. -/
def historyOf (request : Request) (program : Git.Program) (files : FileSystem) :
    Except Failure (Option Git.History) :=
  if request.noHistory then .ok none
  else do
    let repository := request.repository.toList
    let inside := answer program files repository .insideWorkTree
    let history ← (Git.History.open? request.repository inside).mapError Failure.git
    let tags := answer program files repository .releaseTags
    let history ← (history.loadTags tags).mapError Failure.git
    return some history

theorem Reads.openHistory :
    Reads (openHistory request program) files (historyOf request program files) := by
  rw [CommandLine.openHistory, historyOf]
  split
  · exact pure none
  · apply (ask program _ _).bind_ok
    apply (lift _).bind
    intro history _
    apply (ask program _ _).bind_ok
    apply (lift _).bind
    intro history _
    exact pure (some history)

/-- The scan that a request asks for. -/
def scanOf (request : Request) (settings : Settings) (program : Git.Program) (files : FileSystem) :
    Except Failure Catalogue := do
  let history ← historyOf request program files
  Scan.run settings files request.repository.toList (sourceOf program history)

theorem Reads.scan (settings : Settings) :
    Reads (scan request settings program) files (scanOf request settings program files) := by
  rw [CommandLine.scan]
  apply Reads.openHistory.bind
  intro history opened
  apply (get files).bind_ok
  dsimp only
  split
  · apply bind_ok
    · exact forEach fun folder => ask program _ (.log folder)
    · exact lift _
  · exact lift _

/-- The settings that a request works with. -/
def settingsOf (request : Request) (files : FileSystem) : Except Failure Settings :=
  (loadSettings files request.repository.toList).map fun settings =>
    { settings with modulesDir := request.modulesDir.getD settings.modulesDir }

/-- All that comes before anything is written or printed. -/
def prepare (request : Request) (program : Git.Program) : Task (Settings × Catalogue) := do
  let settings ← settingsOf request (← Task.files)
  if !formats.contains request.format then throw (.format request.format)
  let catalogue ← scan request settings program
  return (settings, catalogue)

/-- Write or print what a request wants of a scan. -/
def deliver (request : Request) (settings : Settings) (catalogue : Catalogue) : Task Unit :=
  if request.format = "json" then Task.print (catalogue.toJson.pretty ++ ['\n'])
  else if request.outputOff then return ()
  else publish request settings catalogue

theorem generate_eq (request : Request) (program : Git.Program) :
    generate request program =
      (do let (settings, catalogue) ← prepare request program
          deliver request settings catalogue) := by
  rw [generate, prepare]
  simp only [bind_assoc]
  apply bind_congr
  intro files
  rw [settingsOf]
  cases loadSettings files request.repository.toList with
  | error failure => rfl
  | ok settings =>
    have read (settings : Settings) :
        (liftM (Except.ok settings : Except Failure Settings) : Task Settings) = pure settings := rfl
    simp only [Except.map, read, pure_bind]
    -- the check of the format has its own end on either side, so each is compared alone
    split
    · rfl
    · rw [bind_assoc]
      rfl

/-- What the first part of a run comes to. -/
def prepared (request : Request) (program : Git.Program) (files : FileSystem) :
    Except Failure (Settings × Catalogue) := do
  let settings ← settingsOf request files
  if !formats.contains request.format then throw (.format request.format)
  let catalogue ← scanOf request settings program files
  return (settings, catalogue)

theorem Reads.prepare :
    Reads (prepare request program) files (prepared request program files) := by
  apply (get files).bind_ok
  apply (lift _).bind
  intro settings loaded
  split
  · exact (throw _).bind_error
  · apply (Reads.scan settings).bind
    intro catalogue scanned
    exact pure (settings, catalogue)

/-- What can go wrong before anything is written or printed, one case for each thing that a run
does by then. -/
inductive Broken (request : Request) (program : Git.Program) (files : FileSystem) : Prop where
  | settings {failure : Failure}
      (fails : loadSettings files request.repository.toList = .error failure) :
      Broken request program files
  | format (unknown : request.format ∉ formats) : Broken request program files
  | repository {cause : Git.GitError} (wanted : request.noHistory = false)
      (fails : Git.History.open? request.repository
        (answer program files request.repository.toList .insideWorkTree) = .error cause) :
      Broken request program files
  | tags {history : Git.History} {cause : Git.GitError} (wanted : request.noHistory = false)
      (opened : Git.History.open? request.repository
        (answer program files request.repository.toList .insideWorkTree) = .ok history)
      (fails : history.loadTags
        (answer program files request.repository.toList .releaseTags) = .error cause) :
      Broken request program files
  | discovery {settings : Settings} {cause : FileError}
      (loaded : settingsOf request files = .ok settings)
      (fails : Module.discover files request.repository.toList settings.modulesDir.toList =
        .error cause) :
      Broken request program files
  | module {settings : Settings} {folders : List Module.Folder} {folder : Module.Folder}
      {failure : Failure} (loaded : settingsOf request files = .ok settings)
      (found : Module.discover files request.repository.toList settings.modulesDir.toList =
        .ok folders)
      (member : folder ∈ folders)
      (fails : Module.assemble settings files folder = .error failure) :
      Broken request program files
  | commits {settings : Settings} {folders : List Module.Folder} {folder : Module.Folder}
      {history : Git.History} {cause : Git.GitError}
      (loaded : settingsOf request files = .ok settings)
      (found : Module.discover files request.repository.toList settings.modulesDir.toList =
        .ok folders)
      (member : folder ∈ folders) (told : historyOf request program files = .ok (some history))
      (fails : history.commits folder.relative
        (program (Git.Query.log folder.relative).arguments) = .error cause) :
      Broken request program files

theorem historyOf_eq_ok_iff {history : Option Git.History} :
    historyOf request program files = .ok history ↔
      (request.noHistory = true ∧ history = none) ∨
      (request.noHistory = false ∧ ∃ opened told,
        Git.History.open? request.repository
          (answer program files request.repository.toList .insideWorkTree) = .ok opened ∧
        opened.loadTags (answer program files request.repository.toList .releaseTags) =
          .ok told ∧
        history = some told) := by
  rw [historyOf]
  split
  case isTrue unwanted => simp [unwanted, eq_comm]
  case isFalse wanted =>
    simp only [Bool.not_eq_true] at wanted
    simp only [Except.bind_eq_ok, Except.mapError_eq_ok, Except.pure_eq_ok, wanted]
    simp [eq_comm]

theorem prepared_eq_ok_iff {settings : Settings} {catalogue : Catalogue} :
    prepared request program files = .ok (settings, catalogue) ↔
      settingsOf request files = .ok settings ∧ request.format ∈ formats ∧
      ∃ history, historyOf request program files = .ok history ∧
        Scan.run settings files request.repository.toList (sourceOf program history) =
          .ok catalogue := by
  have named : (!formats.contains request.format) = true ↔ request.format ∉ formats := by simp
  rw [prepared, Except.bind_eq_ok]
  constructor
  · intro succeeds
    obtain ⟨loaded, same, succeeds⟩ := succeeds
    split at succeeds
    case isTrue => cases succeeds
    case isFalse known =>
      rw [named, not_not] at known
      obtain ⟨scanned, ran, succeeds⟩ := Except.bind_eq_ok.mp succeeds
      cases succeeds
      exact ⟨same, known, Except.bind_eq_ok.mp ran⟩
  · intro parts
    obtain ⟨loaded, known, scanned⟩ := parts
    refine ⟨settings, loaded, ?_⟩
    rw [if_neg (not_not.mpr known ∘ named.mp)]
    exact Except.bind_eq_ok.mpr ⟨catalogue, Except.bind_eq_ok.mpr scanned, rfl⟩

/-- A scan comes to nothing if something that it does fails. -/
theorem Broken.of_scan {settings : Settings} {failure : Failure}
    (loaded : settingsOf request files = .ok settings)
    (fails : scanOf request settings program files = .error failure) :
    Broken request program files := by
  rcases Except.bind_eq_error.mp fails with unopened | ⟨history, told, fails⟩
  · rw [historyOf] at unopened
    split at unopened
    case isTrue => cases unopened
    case isFalse wanted =>
      rw [Bool.not_eq_true] at wanted
      rcases Except.bind_eq_error.mp unopened with closed | ⟨history, opened, untold⟩
      · obtain ⟨cause, closed, -⟩ := Except.mapError_eq_error.mp closed
        exact .repository wanted closed
      · rw [Except.mapError_eq_ok] at opened
        rcases Except.bind_eq_error.mp untold with untold | ⟨_, -, none⟩
        · obtain ⟨cause, untold, -⟩ := Except.mapError_eq_error.mp untold
          exact .tags wanted opened untold
        · cases none
  · cases found : Module.discover files request.repository.toList settings.modulesDir.toList with
    | error cause => exact .discovery loaded found
    | ok folders =>
      obtain ⟨folder, member, failure, fails⟩ :=
        (Scan.run_fails_iff_any (Except.mapError_eq_ok.mpr found)).mp ⟨failure, fails⟩
      cases fails with
      | record fails => exact .module loaded found member fails
      | commits _ fails =>
        cases history with
        | none => cases fails
        | some history =>
          obtain ⟨cause, fails, -⟩ := Except.mapError_eq_error.mp fails
          exact .commits loaded found member told fails

/-- A run fails before anything is delivered exactly if something is broken. -/
theorem prepared_fails_iff :
    (∃ failure, prepared request program files = .error failure) ↔
      Broken request program files := by
  constructor
  · intro fails
    obtain ⟨failure, fails⟩ := fails
    rcases Except.bind_eq_error.mp fails with unloaded | ⟨settings, loaded, fails⟩
    · exact .settings (Except.map_eq_error.mp unloaded)
    · split at fails
      case isTrue unknown => exact .format (by simpa using unknown)
      case isFalse =>
        rcases Except.bind_eq_error.mp fails with unscanned | ⟨_, -, none⟩
        · exact .of_scan loaded unscanned
        · cases none
  · intro broken
    apply Except.error_of_not_ok
    intro result succeeds
    obtain ⟨loaded, known, history, told, ran⟩ := prepared_eq_ok_iff.mp succeeds
    obtain ⟨folders, found, documented⟩ := Scan.documented_of_run ran
    cases broken with
    | settings fails =>
      rw [settingsOf, fails] at loaded
      cases loaded
    | format unknown => exact unknown known
    | repository wanted fails =>
      rcases historyOf_eq_ok_iff.mp told with ⟨unwanted, -⟩ | ⟨-, opened, _, same, -⟩
      · cases wanted.symm.trans unwanted
      · cases fails.symm.trans same
    | tags wanted opened fails =>
      rcases historyOf_eq_ok_iff.mp told with ⟨unwanted, -⟩ | ⟨-, opened', _, same, told, -⟩
      · cases wanted.symm.trans unwanted
      · cases opened.symm.trans same
        cases fails.symm.trans told
    | discovery loaded' fails =>
      cases loaded.symm.trans loaded'
      cases fails.symm.trans found
    | module loaded' found' member fails =>
      cases loaded.symm.trans loaded'
      cases found.symm.trans found'
      obtain ⟨record, -, assembled, -⟩ := documented _ member
      cases fails.symm.trans assembled
    | commits loaded' found' member told' fails =>
      cases loaded.symm.trans loaded'
      cases found.symm.trans found'
      cases told.symm.trans told'
      obtain ⟨-, commits, -, known⟩ := documented _ member
      rw [sourceOf] at known
      cases fails.symm.trans (Except.mapError_eq_ok.mp known)

theorem Reads.deliver {settings : Settings} {catalogue : Catalogue}
    (silent : request.outputOff = true ∨ request.format = "json") :
    Reads (deliver request settings catalogue) files (.ok ()) := by
  rw [CommandLine.deliver]
  by_cases json : request.format = "json"
  · rw [if_pos json]
    exact print _
  · rw [if_neg json, if_pos (silent.resolve_right json)]
    exact pure ()

theorem Reads.generate
    (idle : (request.outputOff = true ∨ request.format = "json") ∨
      Broken request program files) :
    Reads (generate request program) files
      ((prepared request program files).map fun _ => ()) := by
  have first : Reads (CommandLine.prepare request program) files _ := prepare
  rw [generate_eq]
  cases result : prepared request program files with
  | error failure =>
    rw [result] at first
    exact first.bind_error
  | ok parts =>
    rw [result] at first
    apply first.bind_ok
    rcases idle with silent | broken
    · exact deliver silent
    · obtain ⟨failure, fails⟩ := prepared_fails_iff.mpr broken
      cases result.symm.trans fails

theorem run_of_reads {arguments : List String} {result : Except Failure Unit}
    (asked : command arguments = .document request)
    (reads : Reads (generate request program) files result) :
    (run arguments program files).world.files = files ∧
      (run arguments program files).world.written = [] ∧
      ∀ failure, result = .error failure →
        (run arguments program files).status = 1 ∧
          (run arguments program files).failure = some failure := by
  obtain ⟨later, ran, kept, unwritten⟩ := reads (World.start files) rfl
  rw [run, asked]
  dsimp only
  rw [ran]
  cases result with
  | ok done => exact ⟨kept, unwritten, nofun⟩
  | error failure =>
    refine ⟨kept, unwritten, ?_⟩
    intro other same
    cases same
    exact ⟨rfl, rfl⟩

/-- A run that fails before anything is delivered, or that is not asked for documents, leaves every
file and folder as it was. -/
theorem run_keeps_files {arguments : List String} (program : Git.Program) (files : FileSystem)
    (idle : ∀ request, command arguments = .document request →
      ReadOnly arguments ∨ Broken request program files) :
    (run arguments program files).world.files = files ∧
      (run arguments program files).world.written = [] ∧
      ∀ request, command arguments = .document request → Broken request program files →
        (run arguments program files).status = 1 ∧
          ∃ failure, (run arguments program files).failure = some failure := by
  cases asked : command arguments with
  | misused | version | help =>
    rw [run, asked]
    exact ⟨rfl, rfl, nofun⟩
  | document request =>
    have silent := (idle request asked).imp_left (readOnly_iff asked).mp
    obtain ⟨kept, unwritten, ends⟩ := run_of_reads asked (Reads.generate silent)
    refine ⟨kept, unwritten, ?_⟩
    intro other same broken
    cases same
    obtain ⟨failure, fails⟩ := prepared_fails_iff.mpr broken
    rw [fails] at ends
    exact ⟨(ends failure rfl).1, failure, (ends failure rfl).2⟩

/-- A repository of two modules with documents of an earlier run, where the second module has become
unreadable. -/
def spoiledTree : FileSystem :=
  ⟨.folder [("repo", .folder [("README.md", .file (Text.Utf8.encode "index".toList)),
    ("modules", .folder [("a", .folder [("README.md", .file (Text.Utf8.encode "old".toList))]),
      ("b", .folder [("main.tf", .file (Text.Utf8.encode "variable".toList))])])])], []⟩

/-- The request for the documents of a repository without its history. -/
def plainRequest : Request :=
  ⟨"repo", none, false, "markdown", true, false⟩

def absentGit : Git.Program := fun _ => .notStarted "No such file or directory (os error 2)"

/-- One broken module leaves the documents of the others alone. -/
theorem run_keeps_files_spoiled :
    (∀ request, command ["--repo", "repo", "--no-history"] = .document request →
      ReadOnly ["--repo", "repo", "--no-history"] ∨ Broken request absentGit spoiledTree) ∧
    (run ["--repo", "repo", "--no-history"] absentGit spoiledTree).status = 1 ∧
    (run ["--repo", "repo", "--no-history"] absentGit spoiledTree).world.files = spoiledTree := by
  have asked : command ["--repo", "repo", "--no-history"] = .document plainRequest := by
    decide +kernel
  have loaded : settingsOf plainRequest spoiledTree = .ok .default :=
    Except.toOption_eq_some.mp (by decide +kernel)
  have found : Module.discover spoiledTree "repo".toList Settings.default.modulesDir.toList =
      .ok [⟨"repo/modules/a".toList, "modules/a"⟩, ⟨"repo/modules/b".toList, "modules/b"⟩] := by
    decide +kernel
  have fails : Module.assemble Settings.default spoiledTree
      ⟨"repo/modules/b".toList, "modules/b"⟩ =
        .error (.grammar "repo/modules/b/main.tf".toList) := by
    decide +kernel
  have broken : Broken plainRequest absentGit spoiledTree :=
    .module loaded found (List.mem_cons_of_mem _ List.mem_cons_self) fails
  have idle : ∀ request, command ["--repo", "repo", "--no-history"] = .document request →
      ReadOnly ["--repo", "repo", "--no-history"] ∨ Broken request absentGit spoiledTree := by
    intro request same
    rw [asked] at same
    cases same
    exact .inr broken
  obtain ⟨kept, -, ends⟩ := run_keeps_files absentGit spoiledTree idle
  exact ⟨idle, (ends plainRequest asked broken).1, kept⟩

end TerraDoc.CommandLine
