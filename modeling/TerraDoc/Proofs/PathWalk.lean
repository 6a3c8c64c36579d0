import TerraDoc.Proofs.TreePlaces

namespace TerraDoc.Files

open Node

/-- The place one step on: the same place, the one above, or the entry of a name. -/
def stepTo (place : List String) (step : List Char) : List String :=
  if step = ['.'] then place
  else if step = ['.', '.'] then place.dropLast
  else place ++ [String.ofList step]

/-- Steps lead from a place to another one. Each is taken in a folder, and only after the last one
may there be nothing. -/
inductive Leads (root : Node) : List String → List (List Char) → List String → Prop where
  | arrive {place : List String} (there : (root.at? place).isSome) : Leads root place [] place
  | step {place found : List String} {step : List Char} {rest : List (List Char)}
      (inside : root.HasFolder place) (next : (root.at? (stepTo place step)).isSome)
      (later : Leads root (stepTo place step) rest found) : Leads root place (step :: rest) found
  | miss {place : List String} {step : List Char} (inside : root.HasFolder place)
      (absent : root.at? (stepTo place step) = none) : Leads root place [step] (stepTo place step)

/-- The place that is or could be at a spot. -/
def Spot.place : Spot → List String
  | present place => place
  | absent above name => above ++ [name]

/-- Whether a spot says right what is there. -/
def Spot.Fits (root : Node) : Spot → Prop
  | present place => (root.at? place).isSome
  | absent above name => root.at? (above ++ [name]) = none

variable {root : Node} {place found : List String} {step : List Char} {rest steps : List (List Char)}
  {follow : List String → List (List Char) → Except FileError Spot} {spot : Spot}

theorem leads_nil_iff : Leads root place [] found ↔ found = place ∧ (root.at? place).isSome := by
  constructor
  · intro leads
    cases leads with
    | arrive there => exact ⟨rfl, there⟩
  · intro parts
    rw [parts.1]
    exact .arrive parts.2

theorem leads_cons_iff : Leads root place (step :: rest) found ↔
    root.HasFolder place ∧
      if (root.at? (stepTo place step)).isSome then Leads root (stepTo place step) rest found
      else rest = [] ∧ found = stepTo place step := by
  constructor
  · intro leads
    cases leads with
    | step inside next later =>
      rw [if_pos next]
      exact ⟨inside, later⟩
    | miss inside absent =>
      rw [absent]
      exact ⟨inside, rfl, rfl⟩
  · intro parts
    obtain ⟨inside, parts⟩ := parts
    split at parts
    case isTrue next => exact .step inside next parts
    case isFalse missing =>
      obtain ⟨rfl, rfl⟩ := parts
      exact .miss inside (by simpa using missing)

theorem Leads.eq_foldl (leads : Leads root place steps found) : found = steps.foldl stepTo place := by
  induction leads with
  | arrive => rfl
  | step _ _ _ inductionHypothesis => exact inductionHypothesis
  | miss => rfl

theorem isSome_dropLast (there : (root.at? place).isSome) : (root.at? place.dropLast).isSome := by
  rcases List.eq_nil_or_concat place with rfl | ⟨above, name, rfl⟩
  · exact there
  · rw [List.concat_eq_append, at?_append] at there
    rw [List.concat_eq_append, List.dropLast_concat]
    exact Option.isSome_of_isSome_bind there

theorem find?_of_folder {entries : List (String × Node)}
    (inside : root.at? place = some (.folder entries)) (name : String) :
    Dictionary.find? name entries = root.at? (place ++ [name]) := by
  rw [at?_append, inside, Option.bind_some, at?_singleton]
  rfl

theorem walkWith_cons (free : root.LinkFree) (inside : root.HasFolder place) :
    walkWith root follow place (step :: rest) =
      if (root.at? (stepTo place step)).isSome then walkWith root follow (stepTo place step) rest
      else if rest.isEmpty then .ok (.absent place (String.ofList step)) else .error .notFound := by
  obtain ⟨entries, here⟩ := inside
  have there : (root.at? place).isSome := by rw [here]; rfl
  rw [walkWith, here]
  dsimp only
  by_cases dot : step = ['.']
  · rw [stepTo, if_pos dot, if_pos dot, if_pos there]
  · by_cases up : step = ['.', '.']
    · rw [stepTo, if_neg dot, if_neg dot, if_pos up, if_pos up, if_pos (isSome_dropLast there)]
    · rw [stepTo, if_neg dot, if_neg dot, if_neg up, if_neg up, find?_of_folder here]
      cases found : root.at? (place ++ [String.ofList step]) with
      | none => rfl
      | some child =>
        cases child with
        | file | folder => rfl
        | link target => exact absurd found (free _ target)

theorem walkWith_cons_of_no_folder (outside : ¬ root.HasFolder place) :
    walkWith root follow place (step :: rest) = .error .notFolder := by
  rw [walkWith]
  split
  · rename_i entries here
    exact absurd ⟨entries, here⟩ outside
  · rfl

theorem stepTo_of_absent (inside : root.HasFolder place)
    (absent : root.at? (stepTo place step) = none) :
    stepTo place step = place ++ [String.ofList step] := by
  obtain ⟨entries, here⟩ := inside
  have there : (root.at? place).isSome := by rw [here]; rfl
  rw [stepTo] at absent ⊢
  split at absent
  · rw [here] at absent
    cases absent
  split at absent
  · rw [Option.eq_none_iff_forall_ne_some] at absent
    obtain ⟨above, found⟩ := Option.isSome_iff_exists.mp (isSome_dropLast there)
    exact absurd found (absent above)
  · rw [if_neg ‹_›, if_neg ‹_›]

theorem Leads.above_of_absent (leads : Leads root place steps found)
    (absent : root.at? found = none) :
    ∃ above name, found = above ++ [name] ∧ root.HasFolder above := by
  induction leads with
  | arrive there =>
    rw [absent] at there
    cases there
  | step _ _ _ inductionHypothesis => exact inductionHypothesis absent
  | miss inside => exact ⟨_, _, stepTo_of_absent inside absent, inside⟩

theorem Leads.start (leads : Leads root place steps found) (nonempty : steps ≠ []) :
    root.HasFolder place := by
  cases leads with
  | arrive => exact absurd rfl nonempty
  | step inside | miss inside => exact inside

theorem Leads.above_of_free (leads : Leads root place steps found) (nonempty : steps ≠ [])
    (free : root.IsFree found) : ∃ above name, found = above ++ [name] ∧ root.HasFolder above := by
  cases there : root.at? found with
  | none => exact leads.above_of_absent there
  | some node =>
    rcases List.eq_nil_or_concat found with rfl | ⟨above, name, rfl⟩
    · obtain ⟨entries, start⟩ := leads.start nonempty
      have file := free root (at?_nil root)
      cases place with
      | nil =>
        rw [at?_nil] at start
        cases start
        cases file
      | cons name rest =>
        rw [at?_of_isFile file] at start
        cases start
    · rw [List.concat_eq_append] at there ⊢
      exact ⟨above, name, rfl, hasFolder_of_isSome (by rw [there]; rfl)⟩

/-- Walking finds the place that the steps lead to. -/
theorem walkWith_eq_ok_iff (free : root.LinkFree) (there : (root.at? place).isSome) :
    walkWith root follow place steps = .ok spot ↔
      Leads root place steps spot.place ∧ spot.Fits root := by
  induction steps generalizing place with
  | nil =>
    rw [walkWith, leads_nil_iff]
    cases spot with
    | present found =>
      constructor
      · intro same
        cases same
        exact ⟨⟨rfl, there⟩, there⟩
      · intro parts
        rw [← parts.1.1]
        rfl
    | absent above name =>
      constructor
      · intro same
        cases same
      · intro parts
        obtain ⟨⟨same, there⟩, absent⟩ := parts
        rw [← same] at there
        rw [Spot.Fits] at absent
        rw [Spot.place, absent] at there
        cases there
  | cons step rest inductionHypothesis =>
    rw [leads_cons_iff]
    by_cases inside : root.HasFolder place
    · rw [walkWith_cons free inside]
      split
      case isTrue next => rw [inductionHypothesis next, and_iff_right inside]
      case isFalse missing =>
        have absent : root.at? (stepTo place step) = none := by simpa using missing
        have name := stepTo_of_absent inside absent
        rw [name] at absent ⊢
        cases spot with
        | present found =>
          constructor
          · intro same
            split at same <;> cases same
          · intro parts
            obtain ⟨⟨-, -, same⟩, there⟩ := parts
            rw [Spot.place] at same
            rw [Spot.Fits, same, absent] at there
            cases there
        | absent above last =>
          cases rest with
          | cons => simp
          | nil =>
            constructor
            · intro same
              cases same
              exact ⟨⟨inside, rfl, rfl⟩, absent⟩
            · intro parts
              obtain ⟨⟨-, -, same⟩, -⟩ := parts
              obtain ⟨rfl, entry⟩ := List.append_inj' same rfl
              cases entry
              rfl
    · rw [walkWith_cons_of_no_folder inside]
      constructor
      · intro same
        cases same
      · intro parts
        exact absurd parts.1.1 inside

theorem walk_eq_ok_iff (free : root.LinkFree) (nonempty : steps ≠ []) :
    walk root linkLimit place steps = .ok spot ↔
      Leads root place steps spot.place ∧ spot.Fits root := by
  change walkWith root (walk root 39) place steps = .ok spot ↔ _
  by_cases there : (root.at? place).isSome
  · exact walkWith_eq_ok_iff free there
  · obtain ⟨step, rest, rfl⟩ := List.exists_cons_of_ne_nil nonempty
    have outside : ¬ root.HasFolder place := by
      intro inside
      obtain ⟨entries, here⟩ := inside
      rw [here] at there
      exact there rfl
    rw [walkWith_cons_of_no_folder outside, leads_cons_iff]
    simp [outside]

theorem Leads.filled {places : List (List String)} {before after : Node}
    (filled : Filled places before after) (leads : Leads before place steps found) :
    Leads after place steps found := by
  induction leads with
  | arrive there => exact .arrive (filled.isSome there)
  | step inside next _ inductionHypothesis =>
    exact .step (filled.folder_iff.mpr inside) (filled.isSome next) inductionHypothesis
  | @miss place step inside absent =>
    rw [leads_cons_iff]
    refine ⟨filled.folder_iff.mpr inside, ?_⟩
    split
    case isTrue there => exact .arrive there
    case isFalse => exact ⟨rfl, rfl⟩

theorem Leads.of_filled {places : List (List String)} {before after : Node}
    (filled : Filled places before after) (leads : Leads after place steps found)
    (started : (before.at? place).isSome ∨ steps ≠ []) : Leads before place steps found := by
  induction leads with
  | arrive => exact .arrive (started.resolve_right fun further => further rfl)
  | @step place found step rest inside next later inductionHypothesis =>
    rw [leads_cons_iff]
    refine ⟨filled.folder_iff.mp inside, ?_⟩
    split
    case isTrue there => exact inductionHypothesis (.inl there)
    case isFalse missing =>
      -- a file that is new holds nothing, so the way ends at it
      cases later with
      | arrive => exact ⟨rfl, rfl⟩
      | step inside' | miss inside' =>
        obtain ⟨entries, there⟩ := filled.folder_iff.mp inside'
        rw [there] at missing
        exact absurd rfl missing
  | miss inside absent =>
    apply Leads.miss (filled.folder_iff.mp inside)
    rw [Option.eq_none_iff_forall_ne_some]
    intro old there
    have still := filled.isSome (by rw [there]; rfl)
    rw [absent] at still
    cases still

namespace FileSystem

variable {files before after later : FileSystem} {path : List Char} {content : List UInt8}

/-- A path leads to a place, whether or not something is there. -/
def Finds (files : FileSystem) (path : List Char) (found : List String) : Prop :=
  path ≠ [] ∧ '\x00' ∉ path ∧ Leads files.root (startOf files.here path) (Path.steps path) found

/-- The place that a path says. -/
def destination (files : FileSystem) (path : List Char) : List String :=
  (Path.steps path).foldl stepTo (startOf files.here path)

theorem Finds.eq_destination (finds : files.Finds path found) : found = files.destination path :=
  finds.2.2.eq_foldl

theorem checked_eq_ok_iff {same : List Char} :
    checked path = .ok same ↔ same = path ∧ path ≠ [] ∧ '\x00' ∉ path := by
  rw [checked]
  by_cases nul : '\x00' ∈ path
  · simp [nul]
  · by_cases empty : path = []
    · simp [empty]
    · rw [if_neg (by simpa using nul), if_neg (by simpa using empty), Except.ok.injEq]
      simp [nul, empty, eq_comm (a := path)]

theorem spot_eq_ok_iff (free : files.root.LinkFree) {spot : Spot} :
    files.spot path = .ok spot ↔ files.Finds path spot.place ∧ spot.Fits files.root := by
  rw [FileSystem.spot, Except.bind_eq_ok, Finds]
  constructor
  · intro found
    obtain ⟨same, usable, found⟩ := found
    obtain ⟨rfl, nonempty, clean⟩ := checked_eq_ok_iff.mp usable
    obtain ⟨leads, fits⟩ := (walk_eq_ok_iff free (Path.steps_ne_nil nonempty)).mp found
    exact ⟨⟨nonempty, clean, leads⟩, fits⟩
  · intro parts
    obtain ⟨⟨nonempty, clean, leads⟩, fits⟩ := parts
    exact ⟨path, checked_eq_ok_iff.mpr ⟨rfl, nonempty, clean⟩,
      (walk_eq_ok_iff free (Path.steps_ne_nil nonempty)).mpr ⟨leads, fits⟩⟩

theorem place_eq_ok_iff (free : files.root.LinkFree) :
    files.place path = .ok found ↔ files.Finds path found ∧ (files.root.at? found).isSome := by
  rw [FileSystem.place, Except.bind_eq_ok]
  constructor
  · intro parts
    obtain ⟨spot, here, same⟩ := parts
    cases spot with
    | absent => cases same
    | present place =>
      cases same
      exact (spot_eq_ok_iff free).mp here
  · intro parts
    exact ⟨.present found, (spot_eq_ok_iff free).mpr parts, rfl⟩

theorem node_eq_ok_iff (free : files.root.LinkFree) {node : Node} :
    files.node path = .ok node ↔
      ∃ place, files.Finds path place ∧ files.root.at? place = some node := by
  rw [FileSystem.node, Except.bind_eq_ok]
  constructor
  · intro parts
    obtain ⟨place, here, same⟩ := parts
    obtain ⟨finds, there⟩ := (place_eq_ok_iff free).mp here
    split at same
    · cases same
      exact ⟨place, finds, ‹_›⟩
    · cases same
  · intro parts
    obtain ⟨place, finds, there⟩ := parts
    refine ⟨place, (place_eq_ok_iff free).mpr ⟨finds, by rw [there]; rfl⟩, ?_⟩
    rw [there]
    rfl

theorem read_eq_ok_iff (free : files.root.LinkFree) :
    files.read path = .ok content ↔
      ∃ place, files.Finds path place ∧ files.root.at? place = some (.file content) := by
  rw [FileSystem.read, Except.bind_eq_ok, ← node_eq_ok_iff free]
  constructor
  · intro parts
    obtain ⟨node, here, same⟩ := parts
    cases node with
    | file => cases same; exact here
    | folder | link => cases same
  · intro here
    exact ⟨_, here, rfl⟩

/-- Writing gives a place a file if the way there is open and no folder is in its place. -/
theorem write_eq_ok_iff (free : files.root.LinkFree) (last : path.getLast? ≠ some '/') :
    files.write path content = .ok later ↔
      ∃ place, files.Finds path place ∧ files.root.IsFree place ∧
        later = files.put place (.file content) := by
  rw [FileSystem.write, if_neg last, Except.bind_eq_ok]
  constructor
  · intro parts
    obtain ⟨spot, here, same⟩ := parts
    obtain ⟨finds, fits⟩ := (spot_eq_ok_iff free).mp here
    cases spot with
    | absent above name =>
      refine ⟨above ++ [name], finds, ?_, (Except.pure_eq_ok.mp same).symm⟩
      intro node there
      rw [Spot.Fits, there] at fits
      cases fits
    | present place =>
      dsimp only at same
      split at same
      · cases same
      · rename_i noFolder
        refine ⟨place, finds, ?_, (Except.pure_eq_ok.mp same).symm⟩
        intro node there
        cases node with
        | file => rfl
        | folder entries => exact absurd there (noFolder entries)
        | link target => exact absurd there (free _ target)
  · intro parts
    obtain ⟨place, finds, flat, rfl⟩ := parts
    cases there : files.root.at? place with
    | none =>
      obtain ⟨above, name, rfl, -⟩ := finds.2.2.above_of_absent there
      exact ⟨.absent above name, (spot_eq_ok_iff free).mpr ⟨finds, there⟩, rfl⟩
    | some node =>
      refine ⟨.present place, (spot_eq_ok_iff free).mpr ⟨finds, ?_⟩, ?_⟩
      · rw [Spot.Fits, there]
        rfl
      · have file := flat node there
        cases node with
        | file => simp only [there]; rfl
        | folder | link => cases file

theorem finds_iff_of_filled {places : List (List String)}
    (filled : Filled places before.root after.root) (same : after.here = before.here) :
    after.Finds path found ↔ before.Finds path found := by
  rw [Finds, Finds, same]
  constructor
  · intro finds
    exact ⟨finds.1, finds.2.1, finds.2.2.of_filled filled (.inr (Path.steps_ne_nil finds.1))⟩
  · intro finds
    exact ⟨finds.1, finds.2.1, finds.2.2.filled filled⟩

theorem filled_of_write (free : files.root.LinkFree) (last : path.getLast? ≠ some '/')
    (wrote : files.write path content = .ok later) :
    Filled [files.destination path] files.root later.root ∧ later.here = files.here ∧
      later.Finds path (files.destination path) ∧
      later.root.at? (files.destination path) = some (.file content) := by
  obtain ⟨place, finds, flat, rfl⟩ := (write_eq_ok_iff free last).mp wrote
  rw [← finds.eq_destination]
  have filled : Filled [place] files.root (files.put place (.file content)).root := by
    obtain ⟨above, name, rfl, inside⟩ :=
      finds.2.2.above_of_free (Path.steps_ne_nil finds.1) flat
    exact Filled.put inside flat
  exact ⟨filled, rfl, (finds_iff_of_filled filled rfl).mpr finds, at?_put_self _ _ _⟩

theorem read_of_filled {places : List (List String)} (free : before.root.LinkFree)
    (filled : Filled places before.root after.root) (same : after.here = before.here)
    (apart : before.destination path ∉ places) :
    (after.read path).toOption = (before.read path).toOption := by
  apply Option.ext
  intro content
  rw [Except.toOption_eq_some, Except.toOption_eq_some, read_eq_ok_iff free,
    read_eq_ok_iff (filled.linkFree free)]
  apply exists_congr
  intro place
  rw [finds_iff_of_filled filled same]
  apply and_congr_right
  intro finds
  rw [← finds.eq_destination] at apart
  exact filled.file_iff apart

theorem foldl_steps (path : List Char) (place : List String) :
    (Path.steps path).foldl stepTo place = (Path.names path).foldl stepTo place := by
  have skip (steps : List (List Char)) (place : List String) :
      (steps.filter (· != ['.'])).foldl stepTo place = steps.foldl stepTo place := by
    induction steps generalizing place with
    | nil => rfl
    | cons step rest inductionHypothesis =>
      by_cases dot : step = ['.']
      · rw [List.filter_cons_of_neg (by simpa using dot), inductionHypothesis, List.foldl_cons,
          stepTo, if_pos dot]
      · rw [List.filter_cons_of_pos (by simpa using dot), List.foldl_cons, List.foldl_cons,
          inductionHypothesis]
  have names : Path.names path =
      ((path.splitOn '/').filter (!·.isEmpty)).filter (· != ['.']) := by
    rw [List.filter_filter, Path.names]
    apply List.filter_congr
    intro name _
    exact Bool.and_comm _ _
  rw [names, skip, Path.steps]
  split
  · rw [List.foldl_append]
    rfl
  · rfl

theorem foldl_names {names : List (List Char)} (ordinary : ∀ name ∈ names, Path.IsName name)
    (place : List String) : names.foldl stepTo place = place ++ names.map String.ofList := by
  induction names generalizing place with
  | nil => simp
  | cons name rest inductionHypothesis =>
    have first := ordinary name List.mem_cons_self
    rw [List.foldl_cons, inductionHypothesis fun other member =>
      ordinary other (List.mem_cons_of_mem _ member), stepTo, if_neg first.here, if_neg first.up]
    simp

theorem destination_join (files : FileSystem) (base : List Char) (plain : Path.Plain path) :
    files.destination (Path.join base path) =
      files.destination base ++ (path.splitOn '/').map String.ofList := by
  have start : startOf files.here (Path.join base path) = startOf files.here base := by
    rw [startOf, startOf, Path.isAbsolute_join base plain.relative]
  rw [destination, destination, start, foldl_steps, foldl_steps, Path.names_join base plain.relative,
    List.foldl_append, plain.names_eq, foldl_names plain]

end FileSystem

end TerraDoc.Files
