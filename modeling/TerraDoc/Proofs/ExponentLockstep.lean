import TerraDoc.Proofs.HeredocScan
import TerraDoc.Proofs.ScanPosition

namespace TerraDoc.Hcl.Exponent

/-- Two texts that are the same, or the same up to a mark before which the longer one has a
point. -/
inductive Similar : List Char → List Char → Prop where
  | nil : Similar [] []
  | cons (c : Char) {short long : List Char} (later : Similar short long) :
      Similar (c :: short) (c :: long)
  | point {c : Char} (short long : List Char) (mark : isMark c = true) :
      Similar (c :: short) ('.' :: long)

variable {s : State} {c : Char} {short long : List Char}

theorem Similar.digitFollows_eq (similar : Similar short long) :
    digitFollows short = digitFollows long := by
  cases similar with
  | nil | cons => rfl
  | point _ _ mark => rcases isMark_cases mark with rfl | rfl <;> rfl

theorem Similar.signFollows_eq (similar : Similar short long) :
    signFollows short = signFollows long := by
  cases similar with
  | nil | cons => rfl
  | point _ _ mark => rcases isMark_cases mark with rfl | rfl <;> rfl

theorem Similar.powerFollows_eq (similar : Similar short long) :
    powerFollows short = powerFollows long := by
  cases similar with
  | nil => rfl
  | cons c later =>
    cases later with
    | nil | cons => rfl
    | point _ _ mark => rcases isMark_cases mark with rfl | rfl <;> rfl
  | point short long mark =>
    rcases isMark_cases mark with rfl | rfl <;> cases short <;> cases long <;> rfl

theorem Similar.quotedStep_eq (similar : Similar short long) :
    quotedStep s c short = quotedStep s c long := by
  cases similar with
  | nil => rfl
  | cons d later =>
    cases later with
    | nil => rfl
    | cons e later => unfold quotedStep; split <;> first | rfl | (split <;> simp_all)
    | point short long mark =>
      rcases isMark_cases mark with rfl | rfl
      all_goals unfold quotedStep; split <;> first | rfl | (split <;> simp_all)
  | point short long mark =>
    rcases isMark_cases mark with rfl | rfl
    all_goals unfold quotedStep; split <;> first | rfl | (split <;> simp_all)

theorem Similar.codeStep_eq {braces : Nat} (similar : Similar short long)
    (header : ∀ short' long', c = '<' → short = '<' :: short' → long = '<' :: long' →
      heredocOpening? short' = heredocOpening? long') :
    codeStep s braces c short = codeStep s braces c long := by
  cases similar with
  | nil => rfl
  | @cons d short long later =>
    by_cases opens : c = '<' ∧ d = '<'
    · obtain ⟨rfl, rfl⟩ := opens
      have same := header short long rfl rfl rfl
      simp only [codeStep, same]
    · unfold codeStep
      split <;> first | rfl | (split <;> simp_all)
  | point short long mark =>
    rcases isMark_cases mark with rfl | rfl
    all_goals unfold codeStep; split <;> first | rfl | (split <;> simp_all)

theorem Similar.take_eq {count : Nat} (similar : Similar short long)
    (pointless : '.' ∉ long.take count) : short.take count = long.take count := by
  induction similar generalizing count with
  | nil => rfl
  | cons c later ih =>
    cases count with
    | zero => rfl
    | succ count =>
      rw [List.take_succ_cons, List.mem_cons, not_or] at pointless
      rw [List.take_succ_cons, List.take_succ_cons, ih pointless.2]
  | point short long mark =>
    cases count with
    | zero => rfl
    | succ count => simp at pointless

theorem heredocOpening?_take {text other marker : List Char} {length : Nat}
    (found : heredocOpening? text = some (marker, length))
    (same : text.take length = other.take length) :
    heredocOpening? other = some (marker, length) := by
  obtain ⟨header, rest, rfl, rfl, -, opens⟩ := heredocOpening?_header found
  rw [List.take_left] at same
  rw [← List.take_append_drop header.length other, ← same]
  exact opens _

/-- The same heredoc opens in both texts, if what is taken for its header is the same, and if the
longer one is not the only one in which none opens. -/
theorem Similar.header {braces : Nat} {after short long : List Char}
    (similar : Similar short long)
    (either : after = short ∨ after = long) (code : s.mode = .code braces)
    (skipped : ∀ count following, (freshStep s '<' ('<' :: after)).phase =
      .skip (count + 1) following → short.take count = long.take count)
    (opened : after = short ∨ (freshStep s '<' ('<' :: after)).phase ≠ .skip 1 .start) :
    heredocOpening? short = heredocOpening? long := by
  cases found : heredocOpening? after with
  | some header =>
    obtain ⟨marker, length⟩ := header
    have same := skipped length (.heredoc marker true)
      (by simp [freshStep, code, codeStep, found, State.goOn])
    rcases either with rfl | rfl
    · rw [found, heredocOpening?_take found same]
    · rw [found, heredocOpening?_take found same.symm]
  | none =>
    have inShort : after = short := by
      refine opened.resolve_right fun other => other ?_
      simp [freshStep, code, codeStep, found, State.goOn]
    subst inShort
    cases other : heredocOpening? long with
    | none => exact found
    | some header =>
      obtain ⟨marker, length⟩ := header
      obtain ⟨header, rest, rfl, rfl, clear, -⟩ := heredocOpening?_header other
      have pointless : '.' ∉ header := fun inside => clear '.' inside (by decide)
      have same := similar.take_eq
        (show '.' ∉ (header ++ rest).take header.length by rwa [List.take_left])
      exact heredocOpening?_take other same.symm

/-- What has to be the same in two texts after a character for the normaliser to take the same step:
the characters that it then takes as accounted for, and the line of a heredoc's body. -/
structure Foreseen (next : Phase) (short long : List Char) : Prop where
  skipped : ∀ count following, next = .skip (count + 1) following →
    short.take (count + 1) = long.take (count + 1)
  line : (∃ marker, next = .heredoc marker false) ∨ next = .lastHeredocLine →
    short.takeWhile (· != '\n') = long.takeWhile (· != '\n')

theorem Similar.freshStep_eq {text : List Char} (similar : Similar short long)
    (either : text = short ∨ text = long)
    (foreseen : Foreseen (freshStep s c text).phase short long)
    (opened : text = short ∨ (c = '<' → (freshStep s c text).phase ≠ .skip 1 .start)) :
    freshStep s c short = freshStep s c long := by
  cases mode : s.mode with
  | quoted =>
    simp only [freshStep, mode]
    exact similar.quotedStep_eq
  | code braces =>
    simp only [freshStep, mode]
    refine similar.codeStep_eq fun short' long' sign first second => ?_
    subst sign first second
    cases similar with
    | cons _ later =>
      obtain ⟨after, rfl⟩ : ∃ after, text = '<' :: after := by
        rcases either with rfl | rfl <;> exact ⟨_, rfl⟩
      have either : after = short' ∨ after = long' := by simpa using either
      refine later.header either mode (fun count following phase => ?_) ?_
      · simpa using foreseen.skipped count following phase
      · exact opened.imp (fun same => (List.cons.inj same).2) fun none => none rfl

/-- The normaliser takes the same step in two similar texts. -/
theorem Similar.phaseStep_eq {text : List Char} (similar : Similar short long)
    (either : text = short ∨ text = long)
    (foreseen : Foreseen (phaseStep s c text).1.phase short long)
    (opened : text = short ∨ (c = '<' → (phaseStep s c text).1.phase ≠ .skip 1 .start)) :
    phaseStep s c short = phaseStep s c long := by
  have fresh (falls : phaseStep s c text = (freshStep s c text, false)) :
      freshStep s c short = freshStep s c long := by
    rw [falls] at foreseen opened
    exact similar.freshStep_eq either foreseen opened
  cases phase : s.phase with
  | start =>
    have same := fresh (by simp only [phaseStep, phase])
    simp only [phaseStep, phase, same]
  | skip count following => rcases count with _ | _ | count <;> simp only [phaseStep, phase]
  | lineComment =>
    by_cases feed : c = '\n'
    · have same := fresh (by simp only [phaseStep, phase, feed, if_true])
      simp only [phaseStep, phase, same]
    · simp only [phaseStep, phase, if_neg feed]
  | blockComment =>
    simp only [phaseStep, phase]
    cases similar with
    | nil => rfl
    | cons d later => split <;> first | rfl | (split <;> simp_all)
    | point _ _ mark => rcases isMark_cases mark with rfl | rfl <;> split <;> simp_all
  | word =>
    by_cases word : isWord c = true
    · simp only [phaseStep, phase, if_pos word]
    · have alone (rest : List Char) (other : ∀ after, ¬ (c = ':' ∧ rest = ':' :: after)) :
          phaseStep s c rest = (freshStep s c rest, false) := by
        simp only [phaseStep, phase, if_neg word]
        split
        · exact absurd ⟨rfl, rfl⟩ (other _)
        · rfl
      by_cases colons : ∃ after, c = ':' ∧ long = ':' :: after
      · obtain ⟨after, rfl, rfl⟩ := colons
        cases similar with
        | cons => simp only [phaseStep, phase, if_neg word]
      · have inLong : ∀ after, ¬ (c = ':' ∧ long = ':' :: after) := not_exists.mp colons
        have inShort : ∀ after, ¬ (c = ':' ∧ short = ':' :: after) := by
          rintro after ⟨rfl, rfl⟩
          cases similar with
          | cons _ later => exact inLong _ ⟨rfl, rfl⟩
          | point _ _ mark => cases mark
        have falls := either.elim (fun same => same ▸ alone short inShort)
          fun same => same ▸ alone long inLong
        rw [alone short inShort, alone long inLong, fresh falls]
  | digits afterPoint =>
    simp only [phaseStep, phase, similar.powerFollows_eq, similar.signFollows_eq,
      similar.digitFollows_eq]
    have seen : powerFollows text = powerFollows long ∧ digitFollows text = digitFollows long := by
      rcases either with rfl | rfl
      · exact ⟨similar.powerFollows_eq, similar.digitFollows_eq⟩
      · exact ⟨rfl, rfl⟩
    split
    · rfl
    · rename_i digit
      split
      · rfl
      · rename_i power
        split
        · rfl
        · rename_i point
          rw [fresh (by simp only [phaseStep, phase, seen, if_neg digit, if_neg power, if_neg point])]
  | fraction =>
    simp only [phaseStep, phase, similar.signFollows_eq]
    split
    · rfl
    · rename_i digit
      split
      · rfl
      · rename_i mark
        rw [fresh (by simp only [phaseStep, phase, if_neg digit, if_neg mark])]
  | power =>
    simp only [phaseStep, phase]
    split
    · rfl
    · rename_i digit
      rw [fresh (by simp only [phaseStep, phase, if_neg digit])]
  | heredoc marker first =>
    simp only [phaseStep, phase]
    by_cases feed : c = '\n'
    · subst feed
      simp
    · have same : short.takeWhile (· != '\n') = long.takeWhile (· != '\n') := by
        apply foreseen.line
        simp only [phaseStep, phase]
        split
        · exact .inr (by simp [State.goOn])
        · exact .inl ⟨marker, by simp [State.goOn, feed]⟩
      rw [List.takeWhile_cons_of_pos (by simpa using feed),
        List.takeWhile_cons_of_pos (by simpa using feed), same]
  | lastHeredocLine => simp only [phaseStep, phase]

/-- A text and the same text with points and zeros before some exponents of numbers without a
fraction. The normaliser goes on from a state through one of the two; where a heredoc might open, it
is either the shorter one or a heredoc does open. -/
inductive Elides : State → List Char → List Char → Prop where
  | nil (s : State) : Elides s [] []
  | keep {s : State} {c : Char} {short long : List Char} (text : List Char)
      (either : text = short ∨ text = long) (unmarked : Unmarked s c text)
      (opened : text = short ∨ ¬ Unopened s c text) (later : Elides (step s c text).1 short long) :
      Elides s (c :: short) (c :: long)
  | insert {s : State} {c : Char} {short long : List Char} (text : List Char)
      (either : text = short ∨ text = long) (digits : s.phase = .digits false)
      (mark : isMark c = true) (follows : powerFollows text = true)
      (later : Elides (step s c text).1 short long) :
      Elides s (c :: short) ('.' :: '0' :: c :: long)

namespace Elides

theorem similar (elides : Elides s short long) : Similar short long := by
  induction elides with
  | nil => exact .nil
  | keep _ _ _ _ _ ih => exact .cons _ ih
  | insert _ _ _ mark => exact .point _ _ mark

theorem skipped {count : Nat} {following : Phase} (elides : Elides s short long)
    (phase : s.phase = .skip (count + 1) following) :
    short.take (count + 1) = long.take (count + 1) := by
  induction count generalizing s short long with
  | zero =>
    cases elides with
    | nil => rfl
    | keep => rfl
    | insert _ _ digits => simp [digits] at phase
  | succ count ih =>
    cases elides with
    | nil => rfl
    | keep _ _ _ _ later =>
      rw [List.take_succ_cons, List.take_succ_cons, ih later]
      simp [step, phaseStep, phase, State.goOn]
    | insert _ _ digits => simp [digits] at phase

theorem line (elides : Elides s short long)
    (phase : (∃ marker, s.phase = .heredoc marker false) ∨ s.phase = .lastHeredocLine) :
    short.takeWhile (· != '\n') = long.takeWhile (· != '\n') := by
  induction elides with
  | nil => rfl
  | @keep s c short long text _ _ _ _ ih =>
    by_cases feed : c = '\n'
    · subst feed
      rfl
    · rw [List.takeWhile_cons_of_pos (by simpa using feed),
        List.takeWhile_cons_of_pos (by simpa using feed), ih ?_]
      rcases phase with ⟨marker, phase⟩ | phase
      · exact .inl ⟨marker, by simp [step, phaseStep, phase, feed, State.goOn]⟩
      · exact .inr (by simp [step, phaseStep, phase, feed, State.goOn])
  | insert _ _ digits => simp [digits] at phase

theorem foreseen (elides : Elides s short long) : Foreseen s.phase short long :=
  ⟨fun _ _ phase => elides.skipped phase, elides.line⟩

theorem of_scans {t : State} {text : List Char} (scanned : Scans Silent s text long t)
    (later : Elides t short long) : Elides s (text ++ short) (text ++ long) := by
  induction scanned with
  | nil => exact later
  | cons step _ ih =>
    exact .keep _ (.inr rfl) step.unmarked (.inr step.opened) (ih later)

end Elides

theorem step_eq_of_elides {text : List Char} (either : text = short ∨ text = long)
    (opened : text = short ∨ ¬ Unopened s c text) (later : Elides (step s c text).1 short long) :
    step s c short = step s c text ∧ step s c long = step s c text := by
  have same : phaseStep s c short = phaseStep s c long := by
    refine later.similar.phaseStep_eq either later.foreseen ?_
    exact opened.imp_right fun none sign skipped => none ⟨sign, skipped⟩
  rcases either with rfl | rfl
  · exact ⟨rfl, by rw [step, step, same]⟩
  · exact ⟨by rw [step, step, same], rfl⟩

end TerraDoc.Hcl.Exponent
