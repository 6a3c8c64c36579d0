import Mathlib.Data.List.Infix
import TerraDoc.CommandLine.Request

namespace TerraDoc.CommandLine

namespace Argument

/-- The text that has a shape. -/
def text : Argument → String
  | plain text => text
  | long name none => "--" ++ name
  | long name (some value) => "--" ++ name ++ "=" ++ value
  | short letters => "-" ++ String.ofList letters
  | separator => "--"

theorem text_of (argument : String) : (of argument).text = argument := by
  rw [← String.toList_inj, of]
  split
  case h_1 same => exact same.symm
  case h_2 rest _ same =>
    have parts := List.takeWhile_append_dropWhile (p := fun c => decide (c ≠ '=')) (l := rest)
    rw [same]
    split
    case h_1 value last =>
      rw [last] at parts
      simpa [text] using parts
    case h_2 other =>
      cases last : rest.dropWhile (fun c => decide (c ≠ '=')) with
      | nil =>
        rw [last, List.append_nil] at parts
        simpa [text] using parts
      | cons c value =>
        have stops := List.head?_dropWhile_not (fun c => decide (c ≠ '=')) rest
        rw [last] at stops
        simp only [List.head?_cons, decide_eq_false_iff_not, not_not] at stops
        exact absurd last (stops ▸ other value)
  case h_3 same => rw [same]; simp [text]
  case h_4 => rfl

theorem eq_iff_of {text argument : String} {shape : Argument} (spelled : of text = shape) :
    text = argument ↔ of argument = shape := by
  constructor
  · intro same
    rw [← same, spelled]
  · intro same
    rw [← text_of text, spelled, ← same, text_of]

theorem of_eq_plain {argument value : String} (same : of argument = .plain value) :
    argument = value := by
  rw [← text_of argument, same, text]

theorem of_outputOff : of "--output-off" = .long "output-off" none := by
  decide

theorem of_format : of "--format" = .long "format" none := by
  decide

theorem of_formatOf (format : String) :
    of ("--format=" ++ format) = .long "format" (some format) := by
  simp [of, String.toList_append]

end Argument

variable {options next final : Options} {arguments : List String}

theorem Options.setValue?_eq_some {name value : String}
    (set : options.setValue? name value = some next) :
    takesValue name = true ∧ next.outputOff = options.outputOff ∧
      ∀ format, next.format = some format ↔
        options.format = some format ∨ name = "format" ∧ value = format := by
  unfold setValue? at set
  split at set
  case h_1 | h_2 =>
    split at set
    · cases set
    · cases set
      exact ⟨rfl, rfl, fun format => (or_iff_left fun other => absurd other.1 (by decide)).symm⟩
  case h_3 =>
    split at set
    · cases set
    · rename_i unset
      cases set
      simp_all [takesValue]
  case h_4 => cases set

theorem Options.setFlag?_eq_some {name : String} (set : options.setFlag? name = some next) :
    takesValue name = false ∧ next.format = options.format ∧
      (next.outputOff = true ↔ options.outputOff = true ∨ name = "output-off") := by
  unfold setFlag? at set
  split at set
  case h_1 =>
    split at set
    · cases set
    · cases set
      exact ⟨rfl, rfl, iff_of_true rfl (.inr rfl)⟩
  case h_2 | h_3 =>
    split at set
    · cases set
    · cases set
      exact ⟨rfl, rfl, (or_iff_left (by decide)).symm⟩
  case h_4 => cases set

theorem readLetters_eq_ok {letters : List Char} (set : readLetters options letters = .ok next) :
    next.format = options.format ∧ next.outputOff = options.outputOff := by
  fun_induction readLetters options letters
  case case1 =>
    cases set
    exact ⟨rfl, rfl⟩
  case case2 flag inductionHypothesis =>
    obtain ⟨-, format, outputOff⟩ := Options.setFlag?_eq_some flag
    obtain ⟨format', outputOff'⟩ := inductionHypothesis set
    rw [or_iff_left (by decide)] at outputOff
    exact ⟨format'.trans format, outputOff'.trans (Bool.eq_iff_iff.mpr outputOff)⟩
  all_goals cases set

theorem readLetters_ne_document {letters : List Char} {request : Request} :
    readLetters options letters ≠ .error (.document request) := by
  fun_induction readLetters options letters
  case case2 inductionHypothesis => exact inductionHypothesis
  all_goals nofun

/-- What the next arguments add to the options. -/
inductive Step (options : Options) : List String → Options → Prop where
  | letters {next : Options} {argument : String} {letters : List Char}
      (shape : Argument.of argument = .short letters)
      (set : readLetters options letters = .ok next) : Step options [argument] next
  | flag {next : Options} {argument name : String}
      (shape : Argument.of argument = .long name none)
      (set : options.setFlag? name = some next) : Step options [argument] next
  /-- An option whose value follows an equals sign. -/
  | joined {next : Options} {argument name value : String}
      (shape : Argument.of argument = .long name (some value))
      (set : options.setValue? name value = some next) : Step options [argument] next
  /-- An option whose value is the argument after it. -/
  | apart {next : Options} {argument name value : String}
      (shape : Argument.of argument = .long name none) (plain : Argument.of value = .plain value)
      (set : options.setValue? name value = some next) : Step options [argument, value] next

/-- What arguments add to the options, one after the other. -/
inductive Reading : Options → List String → Options → Prop where
  | done {options : Options} : Reading options [] options
  | separator {options : Options} {argument : String}
      (shape : Argument.of argument = .separator) : Reading options [argument] options
  | step {options next final : Options} {first rest : List String}
      (step : Step options first next) (later : Reading next rest final) :
      Reading options (first ++ rest) final

theorem reading_of_read {request : Request} (same : read options arguments = .document request) :
    ∃ final, Reading options arguments final ∧ request = final.request := by
  fun_induction read options arguments
  case case1 =>
    cases same
    exact ⟨_, .done, rfl⟩
  case case3 shape empty =>
    cases same
    rw [List.isEmpty_iff.mp empty]
    exact ⟨_, .separator shape, rfl⟩
  case case5 shape _ set inductionHypothesis =>
    obtain ⟨final, later, same⟩ := inductionHypothesis same
    exact ⟨final, .step (.letters shape set) later, same⟩
  case case6 fails =>
    rw [same] at fails
    exact absurd fails readLetters_ne_document
  case case7 shape _ set inductionHypothesis =>
    obtain ⟨final, later, same⟩ := inductionHypothesis same
    exact ⟨final, .step (.joined shape set) later, same⟩
  case case12 shape _ _ _ _ _ _ plain _ set inductionHypothesis =>
    obtain ⟨final, later, same⟩ := inductionHypothesis same
    cases Argument.of_eq_plain plain
    exact ⟨final, .step (.apart shape plain set) later, same⟩
  case case15 shape _ _ _ _ set inductionHypothesis =>
    obtain ⟨final, later, same⟩ := inductionHypothesis same
    exact ⟨final, .step (.flag shape set) later, same⟩
  all_goals cases same

theorem Step.outputOff (step : Step options arguments next) :
    next.outputOff = true ↔ options.outputOff = true ∨ "--output-off" ∈ arguments := by
  have off {argument : String} : "--output-off" = argument ↔ _ :=
    Argument.eq_iff_of Argument.of_outputOff
  cases step with
  | letters shape set =>
    rw [(readLetters_eq_ok set).2, List.mem_singleton, off, shape]
    simp
  | flag shape set =>
    rw [(Options.setFlag?_eq_some set).2.2, List.mem_singleton, off, shape]
    simp
  | joined shape set =>
    rw [(Options.setValue?_eq_some set).2.1, List.mem_singleton, off, shape]
    simp
  | @apart _ _ name _ shape plain set =>
    obtain ⟨takes, same, -⟩ := Options.setValue?_eq_some set
    have other : name ≠ "output-off" := by
      intro same
      rw [same] at takes
      cases takes
    rw [same, List.mem_pair, off, off, shape, plain]
    simp [other]

theorem Reading.outputOff (reading : Reading options arguments final) :
    final.outputOff = true ↔ options.outputOff = true ∨ "--output-off" ∈ arguments := by
  have off {argument : String} : "--output-off" = argument ↔ _ :=
    Argument.eq_iff_of Argument.of_outputOff
  induction reading with
  | done => simp
  | separator shape =>
    rw [List.mem_singleton, off, shape]
    simp
  | step step _ inductionHypothesis =>
    refine inductionHypothesis.trans ?_
    rw [step.outputOff, List.mem_append, or_assoc]

/-- Arguments name a format, in one of the two ways to give a value. -/
def Names (format : String) (arguments : List String) : Prop :=
  "--format=" ++ format ∈ arguments ∨ ["--format", format] <:+: arguments

theorem not_infix_singleton {α : Type} (a b c : α) : ¬ [a, b] <:+: [c] :=
  fun found => absurd found.length_le (by simp)

theorem infix_pair_append {α : Type} {a b : α} {first : List α}
    (apart : first.getLast? ≠ some a) (rest : List α) :
    [a, b] <:+: first ++ rest ↔ [a, b] <:+: first ∨ [a, b] <:+: rest := by
  rw [List.infix_append_iff, ← or_assoc]
  apply or_iff_left_of_imp
  intro across
  obtain ⟨front, back, split, ends, starts⟩ := across
  rcases List.cons_eq_append_iff.mp split with ⟨rfl, rfl⟩ | ⟨front, rfl, more⟩
  · exact .inr starts.isInfix
  · rcases List.cons_eq_append_iff.mp more with ⟨rfl, -⟩ | ⟨front, rfl, last⟩
    · obtain ⟨before, rfl⟩ := ends
      exact absurd List.getLast?_concat apart
    · rw [List.nil_eq, List.append_eq_nil_iff] at last
      rw [last.1] at ends
      exact .inl ends.isInfix

theorem Step.getLast? (step : Step options arguments next) :
    arguments.getLast? ≠ some "--format" := by
  have shapes {argument : String} (same : [argument].getLast? = some "--format") :
      Argument.of argument = .long "format" none :=
    (Argument.eq_iff_of Argument.of_format).mp (Option.some.inj same).symm
  intro last
  cases step with
  | letters shape set => cases shape.symm.trans (shapes last)
  | flag shape set =>
    cases shape.symm.trans (shapes last)
    cases (Options.setFlag?_eq_some set).1
  | joined shape set => cases shape.symm.trans (shapes last)
  | apart shape plain set => cases plain.symm.trans (shapes last)

theorem Step.format (step : Step options arguments next) (format : String) :
    next.format = some format ↔ options.format = some format ∨ Names format arguments := by
  have named {argument : String} : "--format=" ++ format = argument ↔ _ :=
    Argument.eq_iff_of (Argument.of_formatOf format)
  cases step with
  | letters shape set =>
    rw [(readLetters_eq_ok set).1, Names, List.mem_singleton, named, shape,
      or_iff_left (not_infix_singleton _ _ _)]
    simp
  | flag shape set =>
    rw [(Options.setFlag?_eq_some set).2.1, Names, List.mem_singleton, named,
      shape, or_iff_left (not_infix_singleton _ _ _)]
    simp
  | joined shape set =>
    rw [(Options.setValue?_eq_some set).2.2, Names, List.mem_singleton, named,
      shape, or_iff_left (not_infix_singleton _ _ _)]
    simp
  | apart shape plain set =>
    have pair {name value : String} : ["--format", format] <:+: [name, value] ↔
        "--format" = name ∧ format = value := by
      constructor
      · intro found
        cases found.eq_of_length rfl
        exact ⟨rfl, rfl⟩
      · intro same
        rw [← same.1, ← same.2]
    rw [(Options.setValue?_eq_some set).2.2, Names, List.mem_pair, named,
      named, pair, Argument.eq_iff_of Argument.of_format, shape, plain]
    simp [eq_comm]

theorem Step.names_append (step : Step options arguments next) (format : String)
    (rest : List String) :
    Names format (arguments ++ rest) ↔ Names format arguments ∨ Names format rest := by
  rw [Names, List.mem_append, infix_pair_append step.getLast?, or_or_or_comm]
  rfl

theorem Reading.format (reading : Reading options arguments final) (format : String) :
    final.format = some format ↔ options.format = some format ∨ Names format arguments := by
  have named {argument : String} : "--format=" ++ format = argument ↔ _ :=
    Argument.eq_iff_of (Argument.of_formatOf format)
  induction reading with
  | done => simp [Names]
  | separator shape =>
    rw [Names, List.mem_singleton, named, shape,
      or_iff_left (not_infix_singleton _ _ _)]
    simp
  | step step _ inductionHypothesis =>
    refine inductionHypothesis.trans ?_
    rw [step.format, step.names_append, or_assoc]

/-- Arguments that turn writing off or ask for data in place of documents. -/
def ReadOnly (arguments : List String) : Prop :=
  "--output-off" ∈ arguments ∨ Names "json" arguments

theorem readOnly_iff {request : Request} (asked : command arguments = .document request) :
    ReadOnly arguments ↔ request.outputOff = true ∨ request.format = "json" := by
  obtain ⟨final, reading, rfl⟩ := reading_of_read asked
  have format : final.request.format = "json" ↔ final.format = some "json" := by
    rw [Options.request]
    cases final.format with
    | none => simp
    | some format => simp
  rw [format, reading.format, Options.request, reading.outputOff]
  simp [ReadOnly, Options.none]

end TerraDoc.CommandLine
