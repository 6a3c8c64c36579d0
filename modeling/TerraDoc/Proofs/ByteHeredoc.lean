import TerraDoc.Proofs.ByteTokens
import TerraDoc.Proofs.HeredocScan
import TerraDoc.Proofs.LineText

namespace TerraDoc

open Text.Utf8

namespace Hcl.ByteScan

open Exponent

variable {s : State} {c : Char} {front rest : List Char} {braces : Nat}

/-- Where a heredoc opens: there is a marker, and its line ends after it. -/
theorem heredocOpening?_cases (rest : List Char) :
    ∃ dash marker after, rest = dash ++ (marker ++ after) ∧
      (Text.after? ['-'] rest).getD rest = marker ++ after ∧
      marker = (marker ++ after).takeWhile isMarkerChar ∧
      ((heredocOpening? rest = none ∧
        (marker = [] ∨ ∀ body, after ≠ '\r' :: '\n' :: body ∧ after ≠ '\n' :: body)) ∨
      ∃ feed body, marker ≠ [] ∧ (feed = ['\r', '\n'] ∨ feed = ['\n']) ∧ after = feed ++ body ∧
        heredocOpening? rest = some (marker, dash.length + marker.length + feed.length)) := by
  unfold heredocOpening?
  split
  rename_i count head shape
  obtain ⟨dash, split, headed, length⟩ : ∃ dash, rest = dash ++ head ∧
      (Text.after? ['-'] rest).getD rest = head ∧ dash.length = count := by
    split at shape
    · cases shape
      exact ⟨['-'], rfl, rfl, rfl⟩
    · rename_i other
      cases shape
      refine ⟨[], rfl, ?_, rfl⟩
      cases undashed : Text.after? ['-'] rest with
      | none => rfl
      | some more => exact absurd ((Text.after?_eq_some_iff _ _ _).mp undashed) (other more)
  refine ⟨dash, head.takeWhile isMarkerChar, head.dropWhile isMarkerChar, ?_, ?_, ?_, ?_⟩
  · rw [List.takeWhile_append_dropWhile, split]
  · rw [List.takeWhile_append_dropWhile, headed]
  · rw [List.takeWhile_append_dropWhile]
  · dsimp only
    rw [length]
    split
    · rename_i empty
      exact .inl ⟨rfl, .inl (List.isEmpty_iff.mp empty)⟩
    · rename_i nonempty
      rw [List.isEmpty_iff] at nonempty
      split
      · rename_i body ends
        exact .inr ⟨_, body, nonempty, .inl rfl, ends, rfl⟩
      · rename_i body ends
        exact .inr ⟨_, body, nonempty, .inr rfl, ends, rfl⟩
      · rename_i first second
        exact .inl ⟨rfl, .inr fun body => ⟨first body, second body⟩⟩

/-- The lines of a heredoc are looked for where the running scan sees it opened. -/
theorem heredocEnd?_cases (front rest : List Char) :
    (heredocOpening? rest = none ∧
      heredocEnd? (front ++ '<' :: '<' :: rest) (byteLength front) = some (byteLength front + 2)) ∨
    ∃ marker header body, rest = header ++ body ∧ marker ≠ [] ∧
      heredocOpening? rest = some (marker, header.length) ∧
      heredocEnd? (front ++ '<' :: '<' :: rest) (byteLength front) =
        some (closingEnd (front ++ '<' :: '<' :: rest) marker
          (byteLength (front ++ '<' :: '<' :: header)) (Text.pieces body)) := by
  obtain ⟨dash, marker, after, split, headed, marked, opening⟩ := heredocOpening?_cases rest
  have ascii : ∀ c ∈ marker, c.toNat < 128 := fun c member => by
    rw [marked] at member
    exact isMarkerChar_ascii (List.mem_takeWhile_imp member)
  have length : ((bytes (marker ++ after)).takeWhile isMarkerChar).length = byteLength marker := by
    rw [takeWhile_bytes fun c => isMarkerChar_ascii, ← marked, byteLength_of_ascii ascii]
  have split' : splitAt? ((bytes (marker ++ after)).takeWhile isMarkerChar).length
      (marker ++ after) = some (marker, after) := by
    rw [length]
    exact splitAt?_append marker after
  rw [heredocEnd?, splitAt?_signs (by decide) (by decide)]
  simp only [Option.bind_eq_bind, Option.bind_some, headed, split']
  rcases opening with ⟨closed, missing⟩ | ⟨feed, body, nonempty, feeds, rfl, opened⟩
  · refine .inl ⟨closed, ?_⟩
    split
    · rfl
    · rename_i body found
      rcases missing with rfl | missing
      · rfl
      · obtain ⟨crlf, lf⟩ := missing body
        rcases Option.or_eq_some_iff.mp found with found | ⟨-, found⟩
        · exact absurd ((Text.after?_eq_some_iff _ _ _).mp found) crlf
        · exact absurd ((Text.after?_eq_some_iff _ _ _).mp found) lf
  · refine .inr ⟨marker, dash ++ (marker ++ feed), body, by simp [split],
      nonempty, by simp [opened, Nat.add_assoc], ?_⟩
    have found : (Text.after? ['\r', '\n'] (feed ++ body)).or (Text.after? ['\n'] (feed ++ body)) =
        some body := by
      rcases feeds with rfl | rfl <;> simp [Text.after?]
    have text : front ++ '<' :: '<' :: rest =
        (front ++ '<' :: '<' :: (dash ++ (marker ++ feed))) ++ body := by
      simp [split]
    have start : byteLength (front ++ '<' :: '<' :: rest) - byteLength body =
        byteLength (front ++ '<' :: '<' :: (dash ++ (marker ++ feed))) := by
      rw [text, byteLength_append _ body, Nat.add_sub_cancel]
    have cut : splitAt? (byteLength (front ++ '<' :: '<' :: (dash ++ (marker ++ feed))))
        (front ++ '<' :: '<' :: rest) =
          some (front ++ '<' :: '<' :: (dash ++ (marker ++ feed)), body) := by
      rw [text]
      exact splitAt?_append _ body
    simp only [found, start, cut, List.isEmpty_eq_false_iff.mpr nonempty]
    rfl

/-- The last line of a heredoc, up to its line feed or to the end of the text. -/
theorem scans_bodyLine {marker line : List Char} (phase : s.phase = .heredoc marker true)
    (single : '\n' ∉ c :: line) (after : List Char) (ends : ∀ d ∈ after.head?, d = '\n') :
    ∃ previous, Scans Unmarked s (c :: line) after { s with
      phase := if Text.trim (c :: line) = marker then .lastHeredocLine else .heredoc marker false,
      previous } := by
  have taken : (c :: line ++ after).takeWhile (· != '\n') = c :: line := by
    rw [List.takeWhile_append_of_pos fun d member => ?_]
    · cases after with
      | nil => simp
      | cons d after => simp [ends d rfl]
    · rw [bne_iff_ne]
      rintro rfl
      exact single member
  have whole : ∀ d ∈ line, d ≠ '\n' := by
    rintro d member rfl
    exact single (List.mem_cons_of_mem c member)
  have feed : c ≠ '\n' := by
    rintro rfl
    exact single List.mem_cons_self
  by_cases closes : Text.trim (c :: line) = marker
  · rw [if_pos closes]
    have begun : phaseStep s c (line ++ after) = (s.goOn .lastHeredocLine, false) := by
      rw [List.cons_append] at taken
      simp [phaseStep, phase, taken, closes, feed]
    obtain ⟨previous, more⟩ := @scans_stay { s.goOn .lastHeredocLine with previous := c } line after
      fun d member p rest => by simp [phaseStep, State.goOn, whole d member]
    exact ⟨previous, (scans_taken begun).append (scans_unmarked more)⟩
  · rw [if_neg closes]
    have begun : phaseStep s c (line ++ after) = (s.goOn (.heredoc marker false), false) := by
      rw [List.cons_append] at taken
      simp [phaseStep, phase, taken, closes, show (c == '\n') = false by simpa using feed]
    obtain ⟨previous, more⟩ := @scans_stay { s.goOn (.heredoc marker false) with previous := c }
      line after fun d member p rest => by simp [phaseStep, State.goOn, whole d member]
    exact ⟨previous, (scans_taken begun).append (scans_unmarked more)⟩

/-- The body of a heredoc with its last line, or up to the end of the text. -/
theorem stops_heredocBody {marker text : List Char} (front body : List Char)
    (nonempty : marker ≠ []) (phase : s.phase = .heredoc marker true)
    (split : text = front ++ body) :
    Stops s front body (closingEnd text marker (byteLength front) (Text.pieces body)) := by
  induction length : body.length using Nat.strongRecOn generalizing s front body with
  | ind n ih =>
    subst length
    by_cases feed : '\n' ∈ body
    · obtain ⟨line, rest, rfl, single⟩ := List.eq_append_cons_of_mem feed
      have trimmed : Text.trim (line ++ ['\n']) = Text.trim line :=
        Text.trimWhile_append (by simp [Text.isBlank]) line
      rw [Text.pieces_line single, closingEnd, trimmed]
      by_cases closes : Text.trim line = marker
      · rw [if_pos closes, ← byteLength_append]
        cases line with
        | nil => exact absurd closes.symm nonempty
        | cons c line =>
          obtain ⟨previous, first⟩ := scans_bodyLine phase single ('\n' :: rest) (by simp)
          rw [if_pos closes] at first
          have last : phaseStep { s with phase := .lastHeredocLine, previous } '\n' rest =
              ({ s with phase := .start, previous }, false) := rfl
          rw [show c :: line ++ '\n' :: rest = (c :: line ++ ['\n']) ++ rest by simp]
          exact ⟨c :: line ++ ['\n'], rest, { s with phase := .start, previous := '\n' }, rfl,
            ⟨first.append (scans_taken last), rfl, rfl, (fresh_start rfl rest).prompt⟩, rfl⟩
      · rw [if_neg closes, ← byteLength_append]
        have first := scans_unmarked (@scans_heredocLine s rest marker line phase single closes)
        have fewer : rest.length < (line ++ '\n' :: rest).length := by
          rw [List.length_append, List.length_cons]
          omega
        have later := ih rest.length fewer (s := { s with previous := '\n' })
          (front ++ (line ++ ['\n'])) rest phase (by simp [split]) rfl
        rw [show line ++ '\n' :: rest = (line ++ ['\n']) ++ rest by simp]
        exact later.prepend _ first
    · cases body with
      | nil =>
        exact ⟨[], [], s, rfl, ⟨.nil s [], rfl, rfl, (fresh_nil s).prompt⟩, by rw [split]; rfl⟩
      | cons c line =>
        obtain ⟨previous, scanned⟩ := scans_bodyLine phase feed [] (by simp)
        refine ⟨c :: line, [], _, by simp, ⟨scanned, rfl, rfl, (fresh_nil _).prompt⟩, ?_⟩
        rw [Text.pieces_last feed (by simp), closingEnd, closingEnd, split, byteLength_append,
          ite_self]

/-- A heredoc goes up to the end of its last line. Two signs that open none are passed alone. -/
theorem stops_heredoc (code : s.mode = .code braces) (prompt : Prompt s ('<' :: '<' :: rest)) :
    ∃ stop, heredocEnd? (front ++ '<' :: '<' :: rest) (byteLength front) = some stop ∧
      Stops s front ('<' :: '<' :: rest) stop := by
  have first := prompt.scans
  simp only [freshStep, code, codeStep] at first
  rcases heredocEnd?_cases front rest with
    ⟨closed, ended⟩ | ⟨marker, header, body, rfl, nonempty, opened, ended⟩
  · rw [closed] at first
    have second := scans_taken (phaseStep_skip_one
      (s := { s.goOn (.skip 1 .start) with previous := '<' }) rfl '<' rest)
    exact ⟨_, ended, ['<', '<'], rest, { s with phase := .start, previous := '<' }, rfl,
      ⟨Scans.append first second, rfl, rfl, (fresh_start rfl rest).prompt⟩,
      by simp [byteLength_ascii]⟩
  · rw [opened] at first
    obtain ⟨previous, skipped⟩ := @scans_skip
      { s.goOn (.skip (header.length + 1) (.heredoc marker true)) with previous := '<' } body
      header.length (.heredoc marker true) ('<' :: header) rfl rfl (by simp) (by simp)
    have later := stops_heredocBody (s := { s with phase := .heredoc marker true, previous })
      (front ++ '<' :: '<' :: header) body nonempty rfl
      (show front ++ '<' :: '<' :: (header ++ body) = _ by simp)
    exact ⟨_, ended, later.prepend ('<' :: '<' :: header)
      (Scans.append first (scans_unmarked skipped))⟩

end Hcl.ByteScan

end TerraDoc
