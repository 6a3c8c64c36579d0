import TerraDoc.Proofs.ExponentScan
import TerraDoc.Proofs.RegularToken

namespace TerraDoc.Hcl.Exponent

/-- Characters of a quoted string that stand for themselves. -/
def isQuotedPlain (c : Char) : Bool :=
  !(['\\', '$', '%', '"', '\n'].contains c)

theorem quotedStep_plain (s : State) {c : Char} (rest : List Char)
    (plain : isQuotedPlain c = true) : quotedStep s c rest = s.goOn .start := by
  unfold quotedStep
  split
  case h_8 => rfl
  all_goals exact absurd plain (by decide)

theorem scans_quotedPlain {s : State} {text after : List Char} (quoted : s.mode = .quoted)
    (start : s.phase = .start) (plain : ∀ c ∈ text, isQuotedPlain c = true) :
    ∃ previous, Scans Silent s text after { s with previous } := by
  refine scans_stay fun c membership previous rest => ?_
  simp only [phaseStep, start, freshStep, quoted, Prod.mk.injEq, and_true]
  rw [quotedStep_plain _ rest (plain c membership), State.goOn]

theorem scans_escape {s : State} {letter : Char} {after : List Char} (quoted : s.mode = .quoted)
    (start : s.phase = .start) :
    Scans Silent s ['\\', letter] after { s with previous := letter } := by
  have first : phaseStep s '\\' (letter :: after) = (s.goOn (.skip 1 .start), false) := by
    simp [phaseStep, start, freshStep, quoted, quotedStep]
  have scanned := scans_pair .start first rfl (by simp) (by simp)
  rwa [← start] at scanned

theorem hexDigit_ascii {c : Char} (hex : isHexDigit c = true) : c.toNat < 128 := by
  simp only [isHexDigit, Char.isDigit, Bool.or_eq_true, Bool.and_eq_true, decide_eq_true_eq,
    Char.le_def, UInt32.le_iff_toNat_le] at hex
  rcases hex with (⟨-, upper⟩ | ⟨-, upper⟩) | ⟨-, upper⟩
  · exact Nat.lt_of_le_of_lt upper (by decide)
  · exact Nat.lt_of_le_of_lt upper (by decide)
  · exact Nat.lt_of_le_of_lt upper (by decide)

theorem hexDigit_quotedPlain {c : Char} (hex : isHexDigit c = true) : isQuotedPlain c = true :=
  ascii_cases (fun c => isHexDigit c = true → isQuotedPlain c = true) (by decide)
    (hexDigit_ascii hex) hex

theorem scans_coded {s : State} {letter : Char} {digits after : List Char}
    (quoted : s.mode = .quoted) (start : s.phase = .start)
    (hex : ∀ d ∈ digits, isHexDigit d = true) :
    ∃ previous, Scans Silent s ('\\' :: letter :: digits) after { s with previous } := by
  obtain ⟨previous, later⟩ : ∃ previous,
      Scans Silent { s with previous := letter } digits after { s with previous } :=
    scans_quotedPlain quoted start fun d member => hexDigit_quotedPlain (hex d member)
  exact ⟨previous, .append (scans_escape quoted start) later⟩

/-- A sign that does not open anything, because no brace follows it. -/
theorem scans_sign {s : State} {c : Char} {after : List Char} (quoted : s.mode = .quoted)
    (start : s.phase = .start) (template : isTemplateSign c = true)
    (single : ∀ rest, after ≠ '{' :: rest) (doubled : ∀ rest, after ≠ c :: '{' :: rest) :
    Scans Silent s [c] after { s with previous := c } := by
  have here : phaseStep s c after = (s, false) := by
    have kept : quotedStep s c after = s.goOn .start := by
      unfold quotedStep
      split
      all_goals first | rfl | simp_all [isTemplateSign]
    simp only [phaseStep, start, freshStep, quoted, kept, State.goOn]
    rw [← start, ← quoted]
  exact scans_step here (by simp [start]) (by simp [start])

/-- A doubled sign before a brace. -/
theorem scans_doubled {s : State} {c : Char} {after : List Char} (quoted : s.mode = .quoted)
    (start : s.phase = .start) (template : isTemplateSign c = true) :
    Scans Silent s [c, c, '{'] after { s with previous := '{' } := by
  have other : c ≠ '<' := by rintro rfl; cases template
  have opened : quotedStep s c (c :: '{' :: after) = s.goOn (.skip 2 .start) := by
    rcases Bool.or_eq_true_iff.mp template with dollar | percent
    · rw [beq_iff_eq.mp dollar]
      rfl
    · rw [beq_iff_eq.mp percent]
      rfl
  have first : Scans Silent s [c] (c :: '{' :: after)
      { s.goOn (.skip 2 .start) with previous := c } := by
    refine scans_step ?_ (by simp [start]) (fun same => absurd same other)
    simp only [phaseStep, start, freshStep, quoted, opened]
  have taken : phaseStep { s.goOn (.skip 2 .start) with previous := c } c ('{' :: after) =
      ({ s.goOn (.skip 1 .start) with previous := c }, false) := by
    simp [phaseStep, State.goOn]
  have second := scans_pair .start taken rfl other (by simp)
  have whole := first.append second
  rwa [State.goOn, ← start] at whole

/-- Text in which every sign before a brace is doubled. -/
theorem scans_doubledText {s : State} {text after : List Char} (quoted : s.mode = .quoted)
    (start : s.phase = .start) (doubled : Doubled text)
    (plain : ∀ c ∈ text, c ≠ '"' ∧ c ≠ '\\' ∧ c ≠ '\n')
    (ends : ∀ c ∈ after.head?, c ≠ '{' ∧ isTemplateSign c = false) :
    ∃ previous, Scans Silent s text after { s with previous } := by
  induction length : text.length using Nat.strongRecOn generalizing s text with
  | ind n ih =>
    subst length
    cases text with
    | nil => exact ⟨s.previous, .nil s after⟩
    | cons c text =>
      by_cases pair : isTemplateSign c = true ∧ ∃ rest, text = c :: '{' :: rest
      · obtain ⟨template, rest, rfl⟩ := pair
        have first := @scans_doubled s c (rest ++ after) quoted start template
        obtain ⟨previous, later⟩ := ih rest.length (by simp; omega)
          (s := { s with previous := '{' }) quoted start doubled.rest
          (fun d member => plain d (by simp [member])) rfl
        exact ⟨previous, first.append later⟩
      · have rest := doubled.tail fun rest template same => pair ⟨template, rest, same⟩
        obtain ⟨here, first⟩ : ∃ previous,
            Scans Silent s [c] (text ++ after) { s with previous } := by
          by_cases template : isTemplateSign c = true
          · refine ⟨c, scans_sign quoted start template (fun rest open_ => ?_) fun rest open_ => ?_⟩
            · cases text with
              | nil => exact (ends '{' (by rw [show after = _ from open_]; rfl)).1 rfl
              | cons d text =>
                obtain ⟨rfl, -⟩ := List.cons.inj open_
                have before := doubled [] c text rfl template
                cases before
            · cases text with
              | nil =>
                have other := (ends c (by rw [show after = _ from open_]; rfl)).2
                simp [template] at other
              | cons d text =>
                obtain ⟨rfl, next⟩ := List.cons.inj open_
                cases text with
                | nil => exact (ends '{' (by rw [show after = _ from next]; rfl)).1 rfl
                | cons e text =>
                  obtain ⟨rfl, -⟩ := List.cons.inj next
                  exact pair ⟨template, text, rfl⟩
          · obtain ⟨quote, slash, feed⟩ := plain c List.mem_cons_self
            refine scans_quotedPlain quoted start fun d member => ?_
            rw [List.mem_singleton.mp member]
            simp only [isTemplateSign, Bool.or_eq_true, beq_iff_eq, not_or] at template
            simp [isQuotedPlain, quote, slash, feed, template]
        obtain ⟨previous, later⟩ := ih text.length (by simp) (s := { s with previous := here })
          quoted start rest (fun d member => plain d (List.mem_cons_of_mem c member)) rfl
        exact ⟨previous, first.append later⟩

end TerraDoc.Hcl.Exponent
