import TerraDoc.Proofs.CommentLookahead
import TerraDoc.Proofs.ExponentLockstep
import TerraDoc.Proofs.ScanTracking

namespace TerraDoc.Hcl

open Exponent

variable {s s' : State} {c : Char} {text other : List Char}

namespace Alongside

theorem digitFollows_eq (alongside : Alongside text other) :
    digitFollows text = digitFollows other := by
  cases alongside with
  | nil | cons => rfl
  | comment _ _ opens => rcases opens with rfl | rfl <;> rfl

theorem signFollows_eq (alongside : Alongside text other) :
    signFollows text = signFollows other := by
  cases alongside with
  | nil | cons => rfl
  | comment _ _ opens => rcases opens with rfl | rfl <;> rfl

theorem powerFollows_eq (alongside : Alongside text other) :
    powerFollows text = powerFollows other := by
  cases alongside with
  | nil => rfl
  | @cons c text other later =>
    cases later with
    | nil | cons => rfl
    | comment _ _ opens => rcases opens with rfl | rfl <;> simp [powerFollows]
  | comment text other opens =>
    rcases opens with rfl | rfl <;> cases text <;> cases other <;> simp [powerFollows, isSign]

theorem heredocOpening?_eq (alongside : Alongside text other) :
    heredocOpening? text = heredocOpening? other := by
  cases found : heredocOpening? text with
  | some opening =>
    obtain ⟨header, rest, rfl, -, clear, opens⟩ := heredocOpening?_header found
    obtain ⟨rest', rfl, -⟩ := alongside.of_append fun c member => by
      constructor <;> rintro rfl <;> exact clear _ member (by decide)
    exact (opens rest').symm
  | none =>
    cases found' : heredocOpening? other with
    | none => rfl
    | some opening =>
      obtain ⟨header, rest, rfl, -, clear, opens⟩ := heredocOpening?_header found'
      obtain ⟨rest', rfl, -⟩ := alongside.to_append fun member => clear _ member (by decide)
      rw [opens rest'] at found
      cases found

theorem quotedStep_eq (alongside : Alongside text other) :
    quotedStep s c text = quotedStep s c other := by
  cases alongside with
  | nil => rfl
  | @cons d text other later =>
    cases later with
    | nil => rfl
    | cons e later => unfold quotedStep; split <;> first | rfl | (split <;> simp_all)
    | comment _ _ opens =>
      rcases opens with rfl | rfl
      all_goals unfold quotedStep; split <;> first | rfl | (split <;> simp_all)
  | comment _ _ opens =>
    rcases opens with rfl | rfl
    all_goals unfold quotedStep; split <;> first | rfl | (split <;> simp_all)

theorem codeStep_eq {braces : Nat} (alongside : Alongside text other)
    (free : text.head? ≠ other.head? → (codeStep s braces c text).phase.isSettled = true) :
    codeStep s braces c text = codeStep s braces c other := by
  cases alongside with
  | nil => rfl
  | @cons d text other later =>
    by_cases opens : c = '<' ∧ d = '<'
    · obtain ⟨rfl, rfl⟩ := opens
      simp only [codeStep, later.heredocOpening?_eq]
    · unfold codeStep
      split <;> first | rfl | (split <;> simp_all)
  | @comment d text other opens =>
    have settled := free (by rcases opens with rfl | rfl <;> simp)
    by_cases slashes : c = '/' ∧ d = '/'
    · obtain ⟨rfl, rfl⟩ := slashes
      cases settled
    · rcases opens with rfl | rfl
      all_goals unfold codeStep; split <;> first | rfl | (split <;> simp_all)

theorem freshStep_eq (alongside : Alongside text other)
    (free : text.head? ≠ other.head? → (freshStep s c text).phase.isSettled = true) :
    freshStep s c text = freshStep s c other := by
  unfold freshStep at free ⊢
  split
  · exact alongside.quotedStep_eq
  · rename_i braces mode
    rw [mode] at free
    exact alongside.codeStep_eq free

/-- The normaliser takes the same step in both texts, unless it goes on with what came before where
a comment begins in the first one. The line of a heredoc has to be the same. -/
theorem phaseStep_eq (alongside : Alongside text other)
    (free : text.head? ≠ other.head? → (phaseStep s c text).1.phase.isSettled = true)
    (line : ∀ marker, s.phase = .heredoc marker true →
      (c :: text).takeWhile (· != '\n') = (c :: other).takeWhile (· != '\n')) :
    phaseStep s c text = phaseStep s c other := by
  have fresh (falls : phaseStep s c text = (freshStep s c text, false)) :
      freshStep s c text = freshStep s c other := by
    rw [falls] at free
    exact alongside.freshStep_eq free
  cases phase : s.phase with
  | start =>
    have same := fresh (by simp only [phaseStep, phase])
    simp only [phaseStep, phase, same]
  | skip count following => rcases count with _ | _ | count <;> simp only [phaseStep, phase]
  | lineComment =>
    by_cases feed : c = '\n'
    · have same := fresh (by simp only [phaseStep, phase, feed, if_true])
      simp only [phaseStep, phase, same]
    · simp only [phaseStep, phase, if_neg feed]
  | blockComment =>
    cases alongside with
    | nil => rfl
    | cons d later => simp only [phaseStep, phase]; split <;> first | rfl | (split <;> simp_all)
    | @comment d text other opens =>
      have settled := free (by rcases opens with rfl | rfl <;> simp)
      by_cases ends : c = '*' ∧ d = '/'
      · obtain ⟨rfl, rfl⟩ := ends
        simp [phaseStep, phase, State.goOn, Phase.isSettled] at settled
      · simp only [phaseStep, phase]
        split
        · simp_all
        · split <;> simp_all
  | word =>
    by_cases word : isWord c = true
    · simp only [phaseStep, phase, if_pos word]
    · have other_word : isWord c = false := by simpa using word
      by_cases colons : c = ':' ∧ text.head? = some ':'
      · obtain ⟨rfl, second⟩ := colons
        obtain ⟨after, rfl⟩ := List.head?_eq_some_iff.mp second
        obtain ⟨after', rfl, -⟩ := alongside.of_cons (by decide)
        simp only [phaseStep, phase, if_neg word]
      · have single : ¬ (c = ':' ∧ other.head? = some ':') := by
          rintro ⟨rfl, second⟩
          obtain ⟨after, rfl⟩ := List.head?_eq_some_iff.mp second
          obtain ⟨after', rfl, -⟩ := alongside.to_cons (by decide)
          exact colons ⟨rfl, rfl⟩
        have here := (fresh_word phase other_word colons c text rfl).2
        have there := (fresh_word phase other_word single c other rfl).2
        rw [here, there, fresh here]
  | digits afterPoint =>
    simp only [phaseStep, phase, alongside.powerFollows_eq, alongside.signFollows_eq,
      alongside.digitFollows_eq] at fresh ⊢
    split
    · rfl
    · rename_i digit
      split
      · rfl
      · rename_i power
        split
        · rfl
        · rename_i point
          rw [fresh (by rw [if_neg digit, if_neg power, if_neg point])]
  | fraction =>
    simp only [phaseStep, phase, alongside.signFollows_eq] at fresh ⊢
    split
    · rfl
    · rename_i digit
      split
      · rfl
      · rename_i mark
        rw [fresh (by rw [if_neg digit, if_neg mark])]
  | power =>
    simp only [phaseStep, phase] at fresh ⊢
    split
    · rfl
    · rename_i digit
      rw [fresh (by rw [if_neg digit])]
  | heredoc marker first =>
    cases first with
    | false => simp only [phaseStep, phase, Bool.false_and]
    | true => simp only [phaseStep, phase, line marker phase]
  | lastHeredocLine => simp only [phaseStep, phase]

end Alongside

namespace Exponent

/-- Two states from which the next step is the same, and which agree on what encloses the
characters at hand. -/
structure Like (s s' : State) (text : List Char) : Prop where
  mode : s'.mode = s.mode
  around : s'.around = s.around
  phase : s.phase.isSettled = true → s'.phase = s.phase
  step : ∀ c rest, text = c :: rest → ∀ after, step s' c after = step s c after

theorem Like.refl (s : State) (text : List Char) : Like s s text :=
  ⟨rfl, rfl, fun _ => rfl, fun _ _ _ _ => rfl⟩

theorem codeStep_previous {previous : Char} (same : (previous == '.') = (s.previous == '.'))
    (braces : Nat) (c : Char) (rest : List Char) :
    codeStep { s with previous } braces c rest = { codeStep s braces c rest with previous } := by
  have left : State.leave { s with previous } = { s.leave with previous } := by
    unfold State.leave
    cases s.around <;> rfl
  unfold codeStep
  rw [left, same]
  split
  case h_5 => split <;> rfl
  case h_7 => split <;> rfl
  case h_8 =>
    split
    · rfl
    · split <;> rfl
  all_goals rfl

theorem Like.comment {braces : Nat} (left : CommentLeft s text) (code : s.mode = .code braces) :
    Like s { s with phase := .start, previous := ' ' } text := by
  obtain ⟨mode, around, phase, previous⟩ := s
  obtain rfl : mode = .code braces := code
  refine ⟨rfl, rfl, fun settled => ?_, fun c rest split after => ?_⟩
  · rcases left with ⟨start, -⟩ | ⟨line, -⟩
    · exact start.symm
    · rw [line] at settled
      cases settled
  · rcases left with ⟨start, unpointed⟩ | ⟨line, feed⟩
    · obtain rfl : phase = .start := start
      have moved := @codeStep_previous ⟨.code braces, around, .start, previous⟩ ' '
        (by simpa using unpointed) braces c after
      simp [Exponent.step, phaseStep, freshStep, moved]
    · obtain rfl : phase = .lineComment := line
      obtain rfl := feed c (by rw [split]; rfl)
      have inert (s : State) : codeStep s braces '\n' after = s.goOn .start :=
        codeStep_inert s braces after (by decide)
      simp [Exponent.step, phaseStep, freshStep, inert, State.goOn]

theorem Like.heredoc {previous : Char} (closing : s.phase = .lastHeredocLine) :
    Like s { s with previous } text := by
  refine ⟨rfl, rfl, fun _ => rfl, fun c rest _ after => ?_⟩
  simp [Exponent.step, phaseStep, closing, State.goOn]

end Exponent

end TerraDoc.Hcl
