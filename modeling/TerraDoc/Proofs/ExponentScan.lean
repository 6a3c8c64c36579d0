import TerraDoc.Proofs.CharacterClasses

namespace TerraDoc.Hcl.Exponent

/-- A point between digits that stand in no index. -/
def Point (s : State) (c : Char) (rest : List Char) : Prop :=
  s.phase = .digits false ∧ c = '.' ∧ digitFollows rest = true

/-- Two signs `<` that open no heredoc. -/
def Unopened (s : State) (c : Char) (rest : List Char) : Prop :=
  c = '<' ∧ (step s c rest).1.phase = .skip 1 .start

/-- A step that finds no bare exponent. -/
def Unmarked (s : State) (c : Char) (rest : List Char) : Prop :=
  (step s c rest).2 = false

/-- A step that finds neither an exponent nor a point, and keeps track of heredocs. -/
structure Silent (s : State) (c : Char) (rest : List Char) : Prop where
  unmarked : Unmarked s c rest
  point : ¬ Point s c rest
  opened : ¬ Unopened s c rest

/-- A piece of text is scanned from one state to another by allowed steps, with a text after it. -/
inductive Scans (allowed : State → Char → List Char → Prop) :
    State → List Char → List Char → State → Prop where
  | nil (s : State) (after : List Char) : Scans allowed s [] after s
  | cons {s t : State} {c : Char} {text after : List Char}
      (step : allowed s c (text ++ after))
      (later : Scans allowed (Exponent.step s c (text ++ after)).1 text after t) :
      Scans allowed s (c :: text) after t

namespace Scans

variable {allowed : State → Char → List Char → Prop}

theorem append {s t u : State} {first second after : List Char}
    (before : Scans allowed s first (second ++ after) t) (later : Scans allowed t second after u) :
    Scans allowed s (first ++ second) after u := by
  induction first generalizing s with
  | nil =>
    cases before
    exact later
  | cons c first ih =>
    cases before with
    | cons step rest =>
      rw [← List.append_assoc] at step rest
      exact .cons step (ih rest)

theorem mono {other : State → Char → List Char → Prop} {s t : State} {text after : List Char}
    (scanned : Scans allowed s text after t)
    (weaker : ∀ s c rest, allowed s c rest → other s c rest) : Scans other s text after t := by
  induction scanned with
  | nil s after => exact .nil s after
  | cons step _ ih => exact .cons (weaker _ _ _ step) ih

theorem single {s : State} {c : Char} {after : List Char} (step : allowed s c after) :
    Scans allowed s [c] after (Exponent.step s c after).1 :=
  .cons step (.nil _ _)

theorem normalizeFrom {s t : State} {text after : List Char}
    (scanned : Scans Unmarked s text after t) :
    normalizeFrom s (text ++ after) = text ++ Exponent.normalizeFrom t after := by
  induction scanned with
  | nil => rfl
  | @cons s t c text after step later ih =>
    unfold Unmarked at step
    rw [List.cons_append, Exponent.normalizeFrom, List.cons_append, ← ih]
    simp [step]

end Scans

theorem isMark_cases {c : Char} (mark : isMark c = true) : c = 'e' ∨ c = 'E' := by
  simpa [isMark] using mark

/-- Phases in which code is neither in a comment nor in a heredoc, and nothing is accounted for. -/
def Phase.isSettled : Phase → Bool
  | .start | .word | .digits _ | .fraction | .power => true
  | .skip _ _ | .lineComment | .blockComment | .heredoc _ _ | .lastHeredocLine => false

/-- The next character is taken for itself, not for the rest of what came before. -/
def Fresh (s : State) (text : List Char) : Prop :=
  ∀ c rest, text = c :: rest →
    s.phase.isSettled = true ∧ phaseStep s c rest = (freshStep s c rest, false)

theorem fresh_start {s : State} (start : s.phase = .start) (text : List Char) : Fresh s text := by
  rintro c rest -
  exact ⟨by rw [start]; rfl, by simp [phaseStep, start]⟩

theorem fresh_nil (s : State) : Fresh s [] := by
  rintro c rest ⟨⟩

/-- After a word a character is fresh unless it could go on with the word. -/
theorem fresh_word {s : State} {c : Char} {rest : List Char} (word : s.phase = .word)
    (other : isWord c = false) (single : ¬ (c = ':' ∧ rest.head? = some ':')) :
    Fresh s (c :: rest) := by
  rintro _ _ ⟨⟩
  refine ⟨by rw [word]; rfl, ?_⟩
  simp only [phaseStep, word, other, Bool.false_eq_true, if_false]
  split
  · simp at single
  · rfl

theorem fresh_digits {s : State} {c : Char} {rest : List Char} {afterPoint : Bool}
    (digits : s.phase = .digits afterPoint) (other : c.isDigit = false)
    (noMark : (!afterPoint && isMark c && powerFollows rest) = false)
    (noPoint : ¬ (c = '.' ∧ digitFollows rest = true)) : Fresh s (c :: rest) := by
  rintro _ _ ⟨⟩
  refine ⟨by rw [digits]; rfl, ?_⟩
  simp only [phaseStep, digits, other, Bool.false_eq_true, if_false, noMark]
  rw [if_neg (by simpa using noPoint)]

theorem fresh_fraction {s : State} {c : Char} {rest : List Char} (fraction : s.phase = .fraction)
    (other : c.isDigit = false) (noMark : isMark c = false) : Fresh s (c :: rest) := by
  rintro _ _ ⟨⟩
  exact ⟨by rw [fraction]; rfl, by simp [phaseStep, fraction, other, noMark]⟩

theorem fresh_power {s : State} {c : Char} {rest : List Char} (power : s.phase = .power)
    (other : c.isDigit = false) : Fresh s (c :: rest) := by
  rintro _ _ ⟨⟩
  exact ⟨by rw [power]; rfl, by simp [phaseStep, power, other]⟩

theorem fresh_of_settled {s : State} {c : Char} {rest : List Char}
    (settled : s.phase.isSettled = true) (other : isWord c = false) (plain : c ≠ ':' ∧ c ≠ '.') :
    Fresh s (c :: rest) := by
  have letter : c.isAlphanum = false := by
    by_contra word
    simp [isWord, word] at other
  have digit : c.isDigit = false := by
    by_contra digit
    simp [Char.isAlphanum, digit] at letter
  have mark : isMark c = false := by
    refine Bool.eq_false_iff.mpr fun mark => ?_
    rcases isMark_cases mark with rfl | rfl <;> cases other
  cases phase : s.phase with
  | start => exact fresh_start phase _
  | word => exact fresh_word phase other fun colons => plain.1 colons.1
  | digits => exact fresh_digits phase digit (by simp [mark]) fun point => plain.2 point.1
  | fraction => exact fresh_fraction phase digit mark
  | power => exact fresh_power phase digit
  | _ => simp [phase, Phase.isSettled] at settled

theorem Silent.of_phaseStep {s next : State} {c : Char} {rest : List Char}
    (taken : phaseStep s c rest = (next, false))
    (point : s.phase = .digits false → next.phase ≠ .fraction)
    (opened : c = '<' → next.phase ≠ .skip 1 .start) : Silent s c rest := by
  refine ⟨by simp [Unmarked, step, taken], ?_, ?_⟩
  · rintro ⟨digits, rfl, follows⟩
    apply point digits
    have moved : phaseStep s '.' rest = (s.goOn .fraction, false) := by
      simp [phaseStep, digits, follows, isMark]
    rw [taken] at moved
    rw [(Prod.mk.inj moved).1]
    rfl
  · rintro ⟨sign, skipped⟩
    exact opened sign (by simpa [step, taken] using skipped)

theorem step_of_phaseStep {s next : State} {c : Char} {rest : List Char}
    (taken : phaseStep s c rest = (next, false)) :
    (step s c rest).1 = { next with previous := c } := by
  simp [step, taken]

theorem phaseStep_skip_one {s : State} {following : Phase} (skipped : s.phase = .skip 1 following)
    (c : Char) (rest : List Char) : phaseStep s c rest = (s.goOn following, false) := by
  simp [phaseStep, skipped]

theorem scans_unmarked {s t : State} {text after : List Char} (silent : Scans Silent s text after t) :
    Scans Unmarked s text after t :=
  silent.mono fun _ _ _ step => step.unmarked

theorem scans_stay {s : State} {text after : List Char}
    (stays : ∀ c ∈ text, ∀ previous rest,
      phaseStep { s with previous } c rest = ({ s with previous }, false)) :
    ∃ previous, Scans Silent s text after { s with previous } := by
  induction text generalizing s with
  | nil => exact ⟨s.previous, .nil s after⟩
  | cons c text ih =>
    have here := stays c List.mem_cons_self s.previous (text ++ after)
    have moved := step_of_phaseStep here
    obtain ⟨previous, later⟩ := ih (s := { s with previous := c }) fun d membership p rest => by
      simpa using stays d (List.mem_cons_of_mem c membership) p rest
    refine ⟨previous, .cons (.of_phaseStep here ?_ ?_) (by rw [moved]; exact later)⟩
    · intro digits
      simp [digits]
    · rintro - skipped
      rw [phaseStep_skip_one skipped] at here
      have moved : Phase.start = s.phase := congrArg (fun step => step.1.phase) here
      exact absurd (moved.trans skipped) (by simp)

theorem leave_phase (s : State) : s.leave.phase = .start := by
  unfold State.leave
  split <;> rfl

theorem freshStep_phase (s : State) (c : Char) (rest : List Char) :
    (freshStep s c rest).phase ≠ .fraction := by
  unfold freshStep
  split
  · unfold quotedStep
    split <;> simp [State.goOn, State.enter, leave_phase]
  · unfold codeStep
    split
    case h_5 => split <;> simp [State.goOn]
    case h_7 => split <;> simp [leave_phase]
    case h_8 => repeat' split <;> simp [State.goOn]
    all_goals simp [State.goOn, State.enter]

/-- Signs that mean nothing to the normaliser. -/
def isInert (c : Char) : Bool :=
  !(['#', '/', '"', '<', '{', '}'].contains c) && !c.isDigit && !startsWord c

theorem codeStep_inert (s : State) (braces : Nat) {c : Char} (rest : List Char)
    (inert : isInert c = true) : codeStep s braces c rest = s.goOn .start := by
  simp only [isInert, Bool.and_eq_true, Bool.not_eq_true'] at inert
  obtain ⟨⟨sign, digit⟩, word⟩ := inert
  unfold codeStep
  split
  all_goals simp_all

theorem codeStep_digit (s : State) (braces : Nat) {c : Char} (rest : List Char)
    (digit : c.isDigit = true) :
    codeStep s braces c rest = s.goOn (.digits (s.previous == '.')) := by
  unfold codeStep
  split
  all_goals simp_all

theorem codeStep_word (s : State) (braces : Nat) {c : Char} (rest : List Char)
    (word : startsWord c = true) : codeStep s braces c rest = s.goOn .word := by
  unfold codeStep
  split
  case h_8 =>
    rw [if_neg, if_pos word]
    intro digit
    simp [digit_not_startsWord digit] at word
  all_goals exact absurd word (by decide)

theorem fresh_after_word {s : State} {braces : Nat} {text : List Char} (word : s.phase = .word)
    (code : s.mode = .code braces)
    (ends : ∀ c rest, text = c :: rest →
      (isWord c = true → startsWord c = true) ∧ (c = ':' → rest.head? ≠ some ':')) :
    Fresh s text := by
  cases text with
  | nil => exact fresh_nil s
  | cons c rest =>
    obtain ⟨starts, single⟩ := ends c rest rfl
    by_cases more : isWord c = true
    · rintro _ _ ⟨⟩
      refine ⟨by rw [word]; rfl, ?_⟩
      simp only [phaseStep, word, more, if_true, freshStep, code,
        codeStep_word s braces rest (starts more), State.goOn]
      rw [← word, ← code]
    · exact fresh_word word (by simpa using more) fun ⟨colon, next⟩ => single colon next

theorem scans_step {s next : State} {c : Char} {after : List Char}
    (taken : phaseStep s c after = (next, false))
    (point : s.phase = .digits false → next.phase ≠ .fraction)
    (opened : c = '<' → next.phase ≠ .skip 1 .start) :
    Scans Silent s [c] after { next with previous := c } := by
  rw [← step_of_phaseStep taken]
  exact .single (.of_phaseStep taken point opened)

theorem scans_pair {s next : State} {c d : Char} {after : List Char} (following : Phase)
    (first : phaseStep s c (d :: after) = (next, false)) (skipped : next.phase = .skip 1 following)
    (sign : c ≠ '<') (opened : following ≠ .skip 1 .start) :
    Scans Silent s [c, d] after { next with phase := following, previous := d } := by
  have here : Scans Silent s [c] (d :: after) { next with previous := c } :=
    scans_step first (by simp [skipped]) (fun same => absurd same sign)
  have second := phaseStep_skip_one (s := { next with previous := c }) skipped d after
  exact here.append (scans_step second (by simp [skipped]) (fun _ => opened))

theorem scans_fresh {s : State} (next : State) {c : Char} {after : List Char}
    (fresh : Fresh s (c :: after)) (taken : freshStep s c after = next)
    (opened : c = '<' → next.phase ≠ .skip 1 .start) :
    Scans Silent s [c] after { next with previous := c } := by
  refine scans_step ?_ (fun _ => ?_) opened
  · rw [(fresh c after rfl).2, taken]
  · rw [← taken]
    exact freshStep_phase s c after

theorem scans_inert {s : State} {braces : Nat} {c : Char} {after : List Char}
    (code : s.mode = .code braces) (fresh : Fresh s (c :: after)) (inert : isInert c = true) :
    Scans Silent s [c] after { s with phase := .start, previous := c } := by
  refine scans_fresh (s.goOn .start) fresh ?_ ?_
  · simp only [freshStep, code, codeStep_inert s braces after inert]
  · simp [State.goOn]

theorem scans_inert_all {s : State} {braces : Nat} {text after : List Char}
    (code : s.mode = .code braces) (start : s.phase = .start)
    (inert : ∀ c ∈ text, isInert c = true) :
    ∃ previous, Scans Silent s text after { s with previous } := by
  refine scans_stay fun c membership previous rest => ?_
  simp only [phaseStep, start, freshStep, code, Prod.mk.injEq, and_true]
  rw [codeStep_inert _ braces rest (inert c membership), State.goOn]

theorem scans_first_digit {s : State} {braces : Nat} {c : Char} {after : List Char}
    (code : s.mode = .code braces) (fresh : Fresh s (c :: after)) (digit : c.isDigit = true) :
    Scans Silent s [c] after
      { s with phase := .digits (s.previous == '.'), previous := c } := by
  refine scans_fresh (s.goOn (.digits (s.previous == '.'))) fresh ?_ ?_
  · simp only [freshStep, code, codeStep_digit s braces after digit]
  · simp [State.goOn]

theorem scans_first_letter {s : State} {braces : Nat} {c : Char} {after : List Char}
    (code : s.mode = .code braces) (fresh : Fresh s (c :: after)) (word : startsWord c = true) :
    Scans Silent s [c] after { s with phase := .word, previous := c } := by
  refine scans_fresh (s.goOn .word) fresh ?_ ?_
  · simp only [freshStep, code, codeStep_word s braces after word]
  · simp [State.goOn]

theorem scans_digits {s : State} {digits after : List Char}
    (number : (∃ afterPoint, s.phase = .digits afterPoint) ∨ s.phase = .fraction ∨
      s.phase = .power)
    (shape : ∀ c ∈ digits, c.isDigit = true) :
    ∃ previous, Scans Silent s digits after { s with previous } := by
  refine scans_stay fun c membership previous rest => ?_
  have digit := shape c membership
  rcases number with ⟨afterPoint, phase⟩ | phase | phase <;> simp [phaseStep, phase, digit]

theorem scans_whole {s : State} {braces : Nat} {digits after : List Char}
    (code : s.mode = .code braces) (fresh : Fresh s (digits ++ after))
    (shape : ∀ c ∈ digits, c.isDigit = true) (nonempty : digits ≠ []) :
    ∃ previous, Scans Silent s digits after
      { s with phase := .digits (s.previous == '.'), previous } := by
  cases digits with
  | nil => exact absurd rfl nonempty
  | cons c digits =>
    have first := scans_first_digit code fresh (shape c List.mem_cons_self)
    obtain ⟨previous, later⟩ : ∃ previous, Scans Silent
        { s with phase := .digits (s.previous == '.'), previous := c } digits after
        { s with phase := .digits (s.previous == '.'), previous } :=
      scans_digits (.inl ⟨_, rfl⟩) fun d membership => shape d (List.mem_cons_of_mem c membership)
    exact ⟨previous, first.append later⟩

/-- The rest of a word: its characters, and colons in pairs. -/
inductive WordTail : List Char → Prop where
  | nil : WordTail []
  | char {c : Char} {tail : List Char} (word : isWord c = true) (later : WordTail tail) :
      WordTail (c :: tail)
  | colons {tail : List Char} (later : WordTail tail) : WordTail (':' :: ':' :: tail)

theorem scans_wordTail {s : State} {tail after : List Char} (word : s.phase = .word)
    (shape : WordTail tail) : ∃ previous, Scans Silent s tail after { s with previous } := by
  induction shape generalizing s with
  | nil => exact ⟨s.previous, .nil s after⟩
  | @char c tail isWord later ih =>
    have here : phaseStep s c (tail ++ after) = (s, false) := by simp [phaseStep, word, isWord]
    obtain ⟨previous, rest⟩ := ih (s := { s with previous := c }) word
    refine ⟨previous, .cons (.of_phaseStep here ?_ ?_) ?_⟩
    · simp [word]
    · simp [word]
    · rwa [step_of_phaseStep here]
  | @colons tail later ih =>
    have first : phaseStep s ':' (':' :: tail ++ after) = (s.goOn (.skip 1 .word), false) := by
      simp [phaseStep, word, show Exponent.isWord ':' = false by decide]
    have second (t : State) (skipped : t.phase = .skip 1 .word) :
        phaseStep t ':' (tail ++ after) = (t.goOn .word, false) :=
      phaseStep_skip_one skipped _ _
    obtain ⟨previous, rest⟩ := ih (s := { s with previous := ':' }) word
    refine ⟨previous, .cons (.of_phaseStep first ?_ ?_) ?_⟩
    · simp [word]
    · simp
    · rw [step_of_phaseStep first]
      refine .cons (.of_phaseStep (second _ rfl) ?_ ?_) ?_
      · simp [State.goOn]
      · simp
      · rw [step_of_phaseStep (second _ rfl)]
        simpa [State.goOn, ← word] using rest

theorem phaseStep_point {s : State} {afterPoint : Bool} {rest : List Char}
    (digits : s.phase = .digits afterPoint) (follows : digitFollows rest = true) :
    phaseStep s '.' rest = (s.goOn .fraction, false) := by
  simp [phaseStep, digits, follows, isMark]

theorem scans_fraction {s : State} {afterPoint : Bool} {fraction after : List Char}
    (digits : s.phase = .digits afterPoint) (shape : ∀ c ∈ fraction, c.isDigit = true)
    (nonempty : fraction ≠ []) :
    ∃ previous, Scans Unmarked s ('.' :: fraction) after
      { s with phase := .fraction, previous } := by
  have follows : digitFollows (fraction ++ after) = true := by
    cases fraction with
    | nil => exact absurd rfl nonempty
    | cons c fraction => exact shape c List.mem_cons_self
  have point := phaseStep_point digits follows
  obtain ⟨previous, later⟩ : ∃ previous, Scans Silent
      { s with phase := .fraction, previous := '.' } fraction after
      { s with phase := .fraction, previous } := scans_digits (.inr (.inl rfl)) shape
  refine ⟨previous, .cons (by simp [Unmarked, step, point]) ?_⟩
  rw [step_of_phaseStep point]
  exact scans_unmarked later

end TerraDoc.Hcl.Exponent
