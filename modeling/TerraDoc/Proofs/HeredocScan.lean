import Mathlib.Data.List.TakeWhile
import TerraDoc.Proofs.ExponentScan
import TerraDoc.Proofs.RegularToken

namespace TerraDoc.Hcl.Exponent

variable {s : State} {after : List Char}

/-- Characters that are already accounted for. -/
theorem scans_skip {count : Nat} {following : Phase} {text : List Char}
    (skipped : s.phase = .skip (count + 1) following) (length : text.length = count + 1)
    (start : following ≠ .start) (nested : following ≠ .skip 1 .start) :
    ∃ previous, Scans Silent s text after { s with phase := following, previous } := by
  induction count generalizing s text with
  | zero =>
    obtain ⟨c, rfl⟩ := List.length_eq_one_iff.mp length
    have here := phaseStep_skip_one skipped c after
    exact ⟨c, scans_step here (by simp [skipped]) (fun _ => nested)⟩
  | succ count ih =>
    cases text with
    | nil => cases length
    | cons c text =>
      have here : phaseStep s c (text ++ after) =
          (s.goOn (.skip (count + 1) following), false) := by
        simp [phaseStep, skipped]
      have first := scans_step here (by simp [skipped]) (by simp [State.goOn, start])
      obtain ⟨previous, later⟩ := ih (s := { s.goOn (.skip (count + 1) following) with previous := c })
        rfl (Nat.succ.inj length)
      exact ⟨previous, first.append later⟩

theorem isMarkerChar_ascii {c : Char} (marker : isMarkerChar c = true) : c.toNat < 128 := by
  unfold isMarkerChar at marker
  delta Char.isAlphanum Char.isAlpha Char.isUpper Char.isLower Char.isDigit at marker
  simp only [Bool.or_eq_true, Bool.and_eq_true, decide_eq_true_eq, beq_iff_eq,
    UInt32.le_iff_toNat_le] at marker
  have code : c.toNat = c.val.toNat := rfl
  rcases marker with (((upper | lower) | digit) | rfl) | rfl
  · exact code ▸ Nat.lt_of_le_of_lt upper.2 (by decide)
  · exact code ▸ Nat.lt_of_le_of_lt lower.2 (by decide)
  · exact code ▸ Nat.lt_of_le_of_lt digit.2 (by decide)
  · decide
  · decide

theorem isMarkerChar_not_blank {c : Char} (marker : isMarkerChar c = true) :
    Text.isBlank c = false ∧ c ≠ '\n' ∧ c ≠ '.' :=
  ascii_cases (fun c => isMarkerChar c = true → Text.isBlank c = false ∧ c ≠ '\n' ∧ c ≠ '.')
    (by decide) (isMarkerChar_ascii marker) marker

theorem last_of_regular {parts : HeredocParts} (regular : parts.Regular) :
    parts.text.getLast? ≠ some '.' := by
  have ends := List.getLast?_eq_some_getLast regular.nonempty
  have shape := regular.marker _ (List.getLast_mem regular.nonempty)
  have split : parts.text = ['<', '<'] ++ parts.dash ++ parts.marker ++ parts.feed ++
      parts.lines.flatMap (· ++ ['\n']) ++ parts.indent ++ parts.marker := by
    simp [HeredocParts.text, HeredocParts.body]
  rw [split, List.getLast?_append, ends]
  exact fun point => (isMarkerChar_not_blank shape).2.2 (Option.some.inj point)

/-- The opening line of a regular heredoc is what the normaliser looks for. -/
theorem heredocOpening?_regular {parts : HeredocParts} (regular : parts.Regular)
    (after : List Char) :
    heredocOpening? (parts.dash ++ (parts.marker ++ (parts.feed ++ after))) =
      some (parts.marker, parts.dash.length + parts.marker.length + parts.feed.length) := by
  have taken : (parts.marker ++ (parts.feed ++ after)).takeWhile isMarkerChar = parts.marker := by
    rw [List.takeWhile_append_of_pos regular.marker]
    rcases regular.feed with feed | feed <;> simp [feed, isMarkerChar]
  have left : (parts.marker ++ (parts.feed ++ after)).dropWhile isMarkerChar =
      parts.feed ++ after := by
    rw [List.dropWhile_append_of_pos regular.marker]
    rcases regular.feed with feed | feed <;> simp [feed, isMarkerChar]
  rcases regular.dash with dash | dash
  · have undashed := regular.undashed dash
    cases marker : parts.marker with
    | nil => exact absurd marker regular.nonempty
    | cons c tail =>
      rw [marker] at taken left undashed
      have first : c ≠ '-' := by simpa using undashed
      rcases regular.feed with feed | feed
      all_goals
        simp only [feed, List.cons_append, List.nil_append] at taken left
        simp [heredocOpening?, dash, first, taken, left, feed]
  · rcases regular.feed with feed | feed
    all_goals
      simp only [feed, List.cons_append, List.nil_append] at taken left
      simp [heredocOpening?, dash, taken, left, regular.nonempty, feed]

/-- Whatever follows the header of a heredoc, the heredoc opens; a header has no blanks and no signs
but dashes. -/
theorem heredocOpening?_header {text marker : List Char} {length : Nat}
    (found : heredocOpening? text = some (marker, length)) :
    ∃ header rest, text = header ++ rest ∧ header.length = length ∧
      (∀ c ∈ header, c ∉ ['.', ' ', '#', '/']) ∧
      ∀ after, heredocOpening? (header ++ after) = some (marker, length) := by
  have opens (dash feed rest : List Char) (shape : dash = [] ∨ dash = ['-'])
      (feeds : feed = ['\n'] ∨ feed = ['\r', '\n'])
      (chars : ∀ c ∈ marker, isMarkerChar c = true) (nonempty : marker ≠ [])
      (undashed : dash = [] → marker.head? ≠ some '-')
      (split : text = dash ++ (marker ++ (feed ++ rest)))
      (count : length = dash.length + marker.length + feed.length) :
      ∃ header rest, text = header ++ rest ∧ header.length = length ∧
        (∀ c ∈ header, c ∉ ['.', ' ', '#', '/']) ∧
        ∀ after, heredocOpening? (header ++ after) = some (marker, length) := by
    have regular : (HeredocParts.mk dash marker feed [] []).Regular :=
      ⟨shape, nonempty, chars, undashed, feeds, by simp, by simp, by simp⟩
    refine ⟨dash ++ (marker ++ feed), rest, by simp [split], by simp [count, Nat.add_assoc], ?_, ?_⟩
    · have clear : ∀ c ∈ marker, c ∉ ['.', ' ', '#', '/'] := by
        intro c inside sign
        have mark := chars c inside
        simp only [List.mem_cons, List.not_mem_nil, or_false] at sign
        rcases sign with rfl | rfl | rfl | rfl <;> cases mark
      intro c member
      rcases List.mem_append.mp member with inside | inside
      · rcases shape with rfl | rfl
        · cases inside
        · rw [List.mem_singleton.mp inside]
          decide
      · rcases List.mem_append.mp inside with inside | inside
        · exact clear c inside
        · rcases feeds with rfl | rfl
          · rw [List.mem_singleton.mp inside]
            decide
          · have feed : c = '\r' ∨ c = '\n' := by simpa using inside
            rcases feed with rfl | rfl <;> decide
    · intro after
      simpa [count] using heredocOpening?_regular regular after
  unfold heredocOpening? at found
  split at found
  rename_i dash body shape
  have whole := List.takeWhile_append_dropWhile (p := isMarkerChar) (l := body)
  obtain ⟨taken, nonempty, feed, rest, feeds, split, count⟩ :
      marker = body.takeWhile isMarkerChar ∧ marker ≠ [] ∧ ∃ feed rest,
        (feed = ['\n'] ∨ feed = ['\r', '\n']) ∧ body = marker ++ (feed ++ rest) ∧
        length = dash + marker.length + feed.length := by
    dsimp only at found
    split at found
    · cases found
    · rename_i nonempty
      split at found
      · rename_i rest ends
        cases found
        rw [ends] at whole
        exact ⟨rfl, by simpa using nonempty, ['\r', '\n'], rest, .inr rfl, whole.symm, rfl⟩
      · rename_i rest ends
        cases found
        rw [ends] at whole
        exact ⟨rfl, by simpa using nonempty, ['\n'], rest, .inl rfl, whole.symm, rfl⟩
      · cases found
  have chars : ∀ c ∈ marker, isMarkerChar c = true := by
    rw [taken]
    exact fun c member => List.mem_takeWhile_imp member
  split at shape
  · obtain ⟨rfl, rfl⟩ := Prod.mk.inj shape
    exact opens ['-'] feed rest (.inr rfl) feeds chars nonempty (by simp) (by rw [split]; rfl) count
  · rename_i dashed
    obtain ⟨rfl, rfl⟩ := Prod.mk.inj shape
    refine opens [] feed rest (.inl rfl) feeds chars nonempty (fun _ head => ?_) split count
    cases marker with
    | nil => exact nonempty rfl
    | cons d tail =>
      obtain rfl : d = '-' := by simpa using head
      exact dashed _ split

theorem takeWhile_line {line : List Char} (whole : '\n' ∉ line) (after : List Char) :
    (line ++ '\n' :: after).takeWhile (· != '\n') = line := by
  rw [List.takeWhile_append_of_pos fun c member => ?_]
  · simp
  · rw [bne_iff_ne]
    rintro rfl
    exact whole member

/-- A line of the body that is not the marker. -/
theorem scans_heredocLine {marker line : List Char} (phase : s.phase = .heredoc marker true)
    (whole : '\n' ∉ line) (other : Text.trim line ≠ marker) :
    Scans Silent s (line ++ ['\n']) after { s with previous := '\n' } := by
  cases line with
  | nil =>
    have here : phaseStep s '\n' after = (s, false) := by
      have unmarked : (Text.trim [] == marker) = false := by simpa using other
      simp only [phaseStep, phase, List.takeWhile_cons, bne_self_eq_false, Bool.false_eq_true,
        if_false, unmarked, Bool.and_false, beq_self_eq_true, State.goOn]
      rw [← phase]
    exact scans_step here (by simp [phase]) (by simp)
  | cons c line =>
    have taken := takeWhile_line whole after
    rw [List.mem_cons, not_or] at whole
    obtain ⟨first, later⟩ := whole
    rw [List.cons_append] at taken
    have begun : phaseStep s c (line ++ '\n' :: after) =
        (s.goOn (.heredoc marker false), false) := by
      have feed : (c == '\n') = false := by simpa using Ne.symm first
      simp [phaseStep, phase, taken, other, feed]
    obtain ⟨previous, more⟩ := @scans_stay { s.goOn (.heredoc marker false) with previous := c }
      line ('\n' :: after) fun d member p rest => by
        have feed : d ≠ '\n' := by rintro rfl; exact later member
        simp [phaseStep, State.goOn, feed]
    have ended : phaseStep { s.goOn (.heredoc marker false) with previous } '\n' after =
        ({ s with previous }, false) := by
      simp [phaseStep, State.goOn, ← phase]
    have start := scans_step begun (by simp [phase]) (by simp [State.goOn])
    have finish := scans_step ended (by simp [State.goOn]) (by simp)
    have body : Scans Silent s (c :: line) (['\n'] ++ after)
        { s.goOn (.heredoc marker false) with previous } := start.append more
    exact body.append finish

theorem trim_closingLine {marker indent spaces : List Char} (nonempty : marker ≠ [])
    (shape : ∀ c ∈ marker, isMarkerChar c = true) (before : ∀ c ∈ indent, isBlank c = true)
    (behind : ∀ c ∈ spaces, isBlank c = true) :
    Text.trim (indent ++ (marker ++ spaces)) = marker := by
  have blank (c : Char) (here : isBlank c = true) : Text.isBlank c = true := by
    simp only [isBlank, Bool.or_eq_true] at here
    simp only [Text.isBlank, Bool.or_eq_true]
    tauto
  refine Text.trim_around indent marker spaces nonempty (fun c member => ?_) (fun c member => ?_)
    (fun c head => ?_) fun c last => ?_
  · exact blank c (before c member)
  · exact blank c (behind c member)
  · exact (isMarkerChar_not_blank (shape c (List.mem_of_head? head))).1
  · exact (isMarkerChar_not_blank (shape c (List.mem_of_getLast? last))).1

/-- The line of the body that is the marker, up to the end of the marker. -/
theorem scans_closingLine {marker indent spaces rest : List Char}
    (phase : s.phase = .heredoc marker true) (nonempty : marker ≠ [])
    (shape : ∀ c ∈ marker, isMarkerChar c = true)
    (before : ∀ c ∈ indent, isBlank c = true ∧ c ≠ '\n')
    (behind : ∀ c ∈ spaces, isBlank c = true ∧ c ≠ '\n') :
    ∃ previous, Scans Silent s (indent ++ marker) (spaces ++ '\n' :: rest)
      { s with phase := .lastHeredocLine, previous } := by
  have trimmed : Text.trim (indent ++ (marker ++ spaces)) = marker :=
    trim_closingLine nonempty shape (fun c member => (before c member).1)
      fun c member => (behind c member).1
  have feedless : ∀ c ∈ indent ++ marker, c ≠ '\n' := by
    intro c member
    rcases List.mem_append.mp member with inside | inside
    · exact (before c inside).2
    · exact (isMarkerChar_not_blank (shape c inside)).2.1
  have line : (indent ++ marker ++ (spaces ++ '\n' :: rest)).takeWhile (· != '\n') =
      indent ++ (marker ++ spaces) := by
    have whole : '\n' ∉ indent ++ (marker ++ spaces) := by
      intro inside
      rcases List.mem_append.mp inside with inside | inside
      · exact (before _ inside).2 rfl
      · rcases List.mem_append.mp inside with inside | inside
        · exact (isMarkerChar_not_blank (shape _ inside)).2.1 rfl
        · exact (behind _ inside).2 rfl
    rw [← takeWhile_line whole rest]
    simp
  cases split : indent ++ marker with
  | nil => exact absurd (List.append_eq_nil_iff.mp split).2 nonempty
  | cons c text =>
    rw [split] at feedless line
    have first : phaseStep s c (text ++ (spaces ++ '\n' :: rest)) =
        (s.goOn .lastHeredocLine, false) := by
      rw [List.cons_append] at line
      simp only [phaseStep, phase, line, trimmed]
      simp [feedless c List.mem_cons_self]
    obtain ⟨previous, more⟩ := @scans_stay { s.goOn .lastHeredocLine with previous := c }
      text (spaces ++ '\n' :: rest) fun d member p after => by
        simp [phaseStep, State.goOn, feedless d (List.mem_cons_of_mem c member)]
    have start := scans_step first (by simp [phase]) (by simp [State.goOn])
    exact ⟨previous, start.append more⟩

theorem scans_heredocLines {marker : List Char} {lines : List (List Char)}
    (phase : s.phase = .heredoc marker true) (whole : ∀ line ∈ lines, '\n' ∉ line)
    (other : ∀ line ∈ lines, Text.trim line ≠ marker) :
    ∃ previous, Scans Silent s (lines.flatMap (· ++ ['\n'])) after { s with previous } := by
  induction lines generalizing s with
  | nil => exact ⟨s.previous, .nil s after⟩
  | cons line lines ih =>
    have first := @scans_heredocLine s (lines.flatMap (· ++ ['\n']) ++ after) marker line phase
      (whole line List.mem_cons_self) (other line List.mem_cons_self)
    obtain ⟨previous, later⟩ := ih (s := { s with previous := '\n' }) phase
      (fun l member => whole l (List.mem_cons_of_mem line member))
      fun l member => other l (List.mem_cons_of_mem line member)
    exact ⟨previous, first.append later⟩

/-- A regular heredoc ends on its closing line. -/
theorem scans_heredoc {braces : Nat} {parts : HeredocParts} {spaces rest : List Char}
    (regular : parts.Regular) (code : s.mode = .code braces)
    (fresh : Fresh s (parts.text ++ (spaces ++ '\n' :: rest)))
    (behind : ∀ c ∈ spaces, isBlank c = true ∧ c ≠ '\n') :
    ∃ previous, Scans Silent s parts.text (spaces ++ '\n' :: rest)
      { s with phase := .lastHeredocLine, previous } := by
  have opened := heredocOpening?_regular regular (parts.body ++ (spaces ++ '\n' :: rest))
  generalize length : parts.dash.length + parts.marker.length + parts.feed.length = n at opened
  have shape : parts.text ++ (spaces ++ '\n' :: rest) = '<' :: '<' :: (parts.dash ++
      (parts.marker ++ (parts.feed ++ (parts.body ++ (spaces ++ '\n' :: rest))))) := by
    simp [HeredocParts.text]
  rw [shape] at fresh
  have begun := scans_fresh (s.goOn (.skip (n + 1) (.heredoc parts.marker true))) fresh
    (by simp [freshStep, code, codeStep, opened]) (by simp [State.goOn])
  obtain ⟨first, skipped⟩ := @scans_skip
    { s.goOn (.skip (n + 1) (.heredoc parts.marker true)) with previous := '<' }
    (parts.body ++ (spaces ++ '\n' :: rest)) n (.heredoc parts.marker true)
    ('<' :: (parts.dash ++ (parts.marker ++ parts.feed))) rfl (by simp [← length]; omega) (by simp)
    (by simp)
  obtain ⟨second, lines⟩ := @scans_heredocLines
    { s with phase := .heredoc parts.marker true, previous := first }
    (parts.indent ++ parts.marker ++ (spaces ++ '\n' :: rest)) parts.marker parts.lines rfl
    regular.whole regular.open_
  obtain ⟨previous, closing⟩ := @scans_closingLine
    { s with phase := .heredoc parts.marker true, previous := second } parts.marker parts.indent
    spaces rest rfl regular.nonempty regular.marker regular.indent behind
  have body : Scans Silent { s with phase := .heredoc parts.marker true, previous := first }
      parts.body (spaces ++ '\n' :: rest) { s with phase := .lastHeredocLine, previous } :=
    lines.append closing
  refine ⟨previous, ?_⟩
  have text : parts.text = ['<'] ++ ('<' :: (parts.dash ++ (parts.marker ++ parts.feed)) ++
      parts.body) := by
    simp [HeredocParts.text]
  rw [text]
  refine Scans.append ?_ (skipped.append body)
  simpa using begun

end TerraDoc.Hcl.Exponent
