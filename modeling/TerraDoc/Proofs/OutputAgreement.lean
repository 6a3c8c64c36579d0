import TerraDoc.Proofs.CatalogueText
import TerraDoc.Proofs.RunFrame

/-!
The two outputs of a run describe the same modules: what is printed as JSON reads back as the
catalogue whose documents are written as Markdown.
-/

namespace TerraDoc.CommandLine

open Files

/-- Whatever a task comes to, nothing was printed. -/
def Quiet {α : Type} (task : Task α) : Prop :=
  ∀ world : World, (task.run world).2.output = world.output

namespace Quiet

variable {α β : Type} {task : Task α} {rest : α → Task β}

theorem pure (a : α) : Quiet (Pure.pure a : Task α) :=
  fun _ => rfl

theorem throw (failure : Failure) : Quiet (MonadExcept.throw failure : Task α) :=
  fun _ => rfl

theorem lift (result : Except Failure α) : Quiet (liftM result : Task α) :=
  fun _ => rfl

theorem files : Quiet Task.files :=
  fun _ => rfl

theorem modify {change : World → World} (kept : ∀ world, (change world).output = world.output) :
    Quiet (modify change : Task Unit) :=
  kept

theorem bind (first : Quiet task) (next : ∀ a, Quiet (rest a)) : Quiet (task >>= rest) := by
  intro world
  have kept := first world
  rw [Reads.run_bind]
  cases ran : task.run world with
  | mk result middle =>
    rw [ran] at kept
    cases result with
    | error failure => exact kept
    | ok a => exact (next a middle).trans kept

theorem forEach {list : List α} (each : ∀ a, Quiet (rest a)) :
    Quiet (forIn list PUnit.unit fun a _ => do
      let _ ← rest a
      return ForInStep.yield PUnit.unit) := by
  induction list with
  | nil => exact pure ()
  | cons a rest inductionHypothesis =>
    rw [List.forIn_cons]
    apply bind
    · apply (each a).bind
      intro _
      exact pure _
    · intro step
      cases step with
      | done => exact pure _
      | yield => exact inductionHypothesis

variable {request : Request} {program : Git.Program}

theorem ask (repository : List Char) (query : Git.Query) :
    Quiet (Task.ask program repository query) := by
  rw [Task.ask]
  apply files.bind
  intro tree
  split
  · exact pure _
  · dsimp only
    split
    · exact pure _
    · apply bind
      · exact modify fun _ => rfl
      · intro _
        exact pure _

theorem openHistory : Quiet (openHistory request program) := by
  rw [CommandLine.openHistory]
  split
  · exact pure none
  · apply (ask _ _).bind
    intro inside
    apply (lift _).bind
    intro history
    apply (ask _ _).bind
    intro tags
    apply (lift _).bind
    intro history
    exact pure (some history)

theorem scan (settings : Settings) : Quiet (scan request settings program) := by
  rw [CommandLine.scan]
  apply openHistory.bind
  intro history
  apply files.bind
  intro tree
  dsimp only
  split
  · apply bind
    · exact forEach fun folder => ask _ (.log folder)
    · intro _
      exact lift _
  · exact lift _

theorem prepare : Quiet (prepare request program) := by
  apply files.bind
  intro tree
  apply (lift _).bind
  intro settings
  split
  · apply (throw _).bind
    intro _
    exact (scan settings).bind fun catalogue => pure _
  · apply (scan settings).bind
    intro catalogue
    exact pure _

end Quiet

variable {request : Request} {program : Git.Program} {files : FileSystem} {settings : Settings}
  {catalogue : Catalogue} {arguments : List String}

/-- What a run comes to by what its task comes to. -/
def Outcome.ofResult : Except Failure Unit × World → Outcome
  | (.ok (), world) => ⟨0, none, world⟩
  | (.error failure, world) => ⟨1, some failure, world⟩

theorem run_eq_ofResult (asked : command arguments = .document request) :
    run arguments program files =
      .ofResult ((generate request program).run (World.start files)) := by
  rw [run, asked]
  rfl

/-- A run for which a scan succeeds goes on to deliver it, with the files as they were and nothing
printed. -/
theorem run_of_scan (asked : command arguments = .document request)
    (known : request.format ∈ formats) (loaded : settingsOf request files = .ok settings)
    (scanned : scanOf request settings program files = .ok catalogue) :
    ∃ world : World, world.files = files ∧ world.written = [] ∧ world.output = [] ∧
      run arguments program files =
        .ofResult ((deliver request settings catalogue).run world) := by
  have result : prepared request program files = .ok (settings, catalogue) :=
    prepared_eq_ok_iff.mpr ⟨loaded, known, Except.bind_eq_ok.mp scanned⟩
  have first : Reads (prepare request program) files (prepared request program files) :=
    Reads.prepare
  rw [result] at first
  obtain ⟨world, ran, kept, unwritten⟩ := first (World.start files) rfl
  have quiet : Quiet (prepare request program) := Quiet.prepare
  have silent := quiet (World.start files)
  rw [ran] at silent
  refine ⟨world, kept, unwritten, silent, ?_⟩
  rw [run_eq_ofResult asked, generate_eq, Reads.run_bind, ran]

theorem run_json (asked : command arguments = .document request) (json : request.format = "json")
    (loaded : settingsOf request files = .ok settings)
    (scanned : scanOf request settings program files = .ok catalogue) :
    (run arguments program files).status = 0 ∧
      (run arguments program files).world.output = catalogue.toJson.pretty ++ ['\n'] := by
  have known : request.format ∈ formats := by
    rw [json]
    decide
  obtain ⟨world, -, -, silent, ran⟩ := run_of_scan asked known loaded scanned
  rw [ran, deliver, if_pos json]
  constructor
  · rfl
  · change world.output ++ _ = _
    rw [silent, List.nil_append]

theorem run_publish (request : Request) (settings : Settings) (catalogue : Catalogue)
    (world : World) :
    let publication := Docs.publish settings request.repository.toList catalogue world.files
    ∃ output,
      (publish request settings catalogue).run world =
        (match publication.failure with
          | some cause => .error (.file cause)
          | none => .ok (),
        { world with
          files := publication.files
          written := world.written ++ publication.paths
          output := output }) := by
  intro publication
  have ran : (publish request settings catalogue).run world =
      (match publication.failure with
        | some cause => throw (Failure.file cause)
        | none => Task.print ("Wrote ".toList ++ (toString publication.paths.length).toList ++
            " README files\n".toList) : Task Unit).run
        { world with
          files := publication.files
          written := world.written ++ publication.paths } := rfl
  rw [ran]
  cases publication.failure with
  | none => exact ⟨_, rfl⟩
  | some cause => exact ⟨_, rfl⟩

/-- A run that is asked for Markdown writes the documents of the scan, up to the first that cannot
be written. -/
theorem run_markdown (asked : command arguments = .document request)
    (markdown : request.format = "markdown") (wanted : request.outputOff = false)
    (loaded : settingsOf request files = .ok settings)
    (scanned : scanOf request settings program files = .ok catalogue) :
    let publication := Docs.publish settings request.repository.toList catalogue files
    (run arguments program files).world.files = publication.files ∧
      (run arguments program files).world.written = publication.paths ∧
      ((run arguments program files).status = 0 ↔ publication.failure = none) := by
  intro publication
  have known : request.format ∈ formats := by
    rw [markdown]
    decide
  have other : request.format ≠ "json" := by
    rw [markdown]
    decide
  obtain ⟨world, kept, unwritten, -, ran⟩ := run_of_scan asked known loaded scanned
  have published : deliver request settings catalogue = publish request settings catalogue := by
    rw [deliver, if_neg other, if_neg (by rw [wanted]; decide)]
  obtain ⟨output, delivered⟩ := run_publish request settings catalogue world
  rw [kept, unwritten, List.nil_append] at delivered
  rw [ran, published, delivered]
  change _ ∧ _ ∧ (_ ↔ publication.failure = none)
  cases failed : publication.failure with
  | none => exact ⟨rfl, rfl, by simp [Outcome.ofResult]⟩
  | some cause => exact ⟨rfl, rfl, by simp [Outcome.ofResult]⟩

/-- What a run prints as JSON describes what the same run writes as Markdown. Wherever a scan
succeeds, the printed text reads back as a catalogue that is the one of the scan, and the index and
the READMEs of this catalogue are the texts that the other run writes, to the paths that they are
made for, up to the first that cannot be written. -/
theorem outputs_describe_same {arguments arguments' : List String} {request : Request}
    (json : command arguments = .document { request with format := "json" })
    (markdown : command arguments' =
      .document { request with format := "markdown", outputOff := false })
    (loaded : settingsOf request files = .ok settings)
    (scanned : scanOf request settings program files = .ok catalogue) :
    let printed := run arguments program files
    let written := run arguments' program files
    let repository := request.repository.toList
    let name := settings.readmeName.toList
    printed.status = 0 ∧
    ∃ read : Catalogue, (Json.parse printed.world.output).bind Catalogue.ofJson? = some read ∧
      read = catalogue ∧
      ∃ publication, publication = Docs.writeEach
          ((Path.join repository name, Docs.index settings read) ::
            read.map fun entry => (Path.join (Path.join repository entry.1.toList) name,
              Docs.readme settings entry.2)) files ∧
        written.world.files = publication.files ∧ written.world.written = publication.paths ∧
        (written.status = 0 ↔ publication.failure = none) := by
  intro printed written repository name
  obtain ⟨done, output⟩ : printed.status = 0 ∧
      printed.world.output = catalogue.toJson.pretty ++ ['\n'] :=
    run_json json rfl loaded scanned
  obtain ⟨_, -, ran⟩ := Except.bind_eq_ok.mp scanned
  have documents := run_markdown markdown rfl rfl loaded scanned
  refine ⟨done, catalogue, ?_, rfl, _, rfl, documents⟩
  rw [output]
  exact Catalogue.read_printed (Scan.ordered_of_run ran)

/-- A module whose description holds a quote, a tabulator and a letter beyond ASCII. -/
def quotedTree : FileSystem :=
  ⟨.folder [("repo", .folder [("modules", .folder [("a", .folder [("main.tf",
    .file (Text.Utf8.encode "/*\ntitle: a\ndesc: \"é\"\t.\n*/\n".toList))])])])], []⟩

def quotedModules : Catalogue :=
  [("modules/a", ⟨⟨"modules/a", ⟨"a", "\"é\"\t.", [], []⟩, [], []⟩, []⟩)]

theorem outputs_describe_same_quoted :
    let printed := run ["--repo", "repo", "--no-history", "--format=json"] absentGit quotedTree
    let written := run ["--repo", "repo", "--no-history"] absentGit quotedTree
    printed.status = 0 ∧
      (Json.parse printed.world.output).bind Catalogue.ofJson? = some quotedModules ∧
      written.world.written = ["repo/README.md".toList, "repo/modules/a/README.md".toList] := by
  have json : command ["--repo", "repo", "--no-history", "--format=json"] =
      .document { plainRequest with format := "json" } := by decide +kernel
  have markdown : command ["--repo", "repo", "--no-history"] =
      .document { plainRequest with format := "markdown", outputOff := false } := by
    decide +kernel
  have loaded : settingsOf plainRequest quotedTree = .ok .default :=
    Except.toOption_eq_some.mp (by decide +kernel)
  have scanned : scanOf plainRequest .default absentGit quotedTree = .ok quotedModules :=
    Except.toOption_eq_some.mp (by decide +kernel)
  obtain ⟨done, read, back, rfl, publication, rfl, -, written, -⟩ :=
    outputs_describe_same json markdown loaded scanned
  refine ⟨done, back, ?_⟩
  rw [written]
  decide +kernel

end TerraDoc.CommandLine
