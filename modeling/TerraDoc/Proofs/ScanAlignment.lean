import TerraDoc.Proofs.ByteTokens
import TerraDoc.Proofs.QuotedScan
import TerraDoc.Proofs.ScanPosition

namespace TerraDoc

open Text.Utf8

namespace Hcl.ByteScan

open Exponent

variable {text front rest piece after : List Char} {found : List Nat} {s t : State} {d : Char}

/-- The offset of a position of a text. -/
def offsetAt (text : List Char) (position : Nat) : Nat :=
  byteLength (text.take position)

/-- The running scan at a front of a text, with the offsets of the exponents in the front. -/
structure Along (text : List Char) (found : List Nat) (front rest : List Char) (s : State) :
    Prop where
  split : text = front ++ rest
  reached : scan .initial front rest = s
  found : found ++ (positionsFrom s front.length rest).map (offsetAt text) =
    (positions text).map (offsetAt text)

namespace Along

theorem previous (along : Along text found front rest s) :
    s.previous = front.getLast?.getD ' ' := by
  rw [← along.reached]
  exact scan_previous _ _ _

theorem pass (piece : List Char) (along : Along text found front (piece ++ after) s)
    (scanned : Scans Unmarked s piece after t) : Along text found (front ++ piece) after t := by
  refine ⟨by rw [along.split, List.append_assoc], ?_, ?_⟩
  · rw [scan_append, along.reached]
    exact scanned.scan_eq
  · rw [← along.found, scanned.positionsFrom, List.length_append]

theorem mark (along : Along text found front (d :: rest) s) (bare : step s d rest = (t, true)) :
    Along text (found ++ [byteLength front]) (front ++ [d]) rest t := by
  have here : offsetAt text front.length = byteLength front := by
    rw [offsetAt, along.split, List.take_left]
  refine ⟨by rw [along.split, List.append_assoc, List.singleton_append], ?_, ?_⟩
  · rw [scan_append, List.singleton_append, along.reached]
    simp [scan, bare]
  · rw [← along.found, positionsFrom]
    simp [bare, here]

end Along

/-- Where the search can stand when the scan is at a front of the text. -/
inductive Place (s : State) (front rest : List Char) (offset : Nat) : Prop where
  | between (here : offset = byteLength front) (prompt : Prompt s rest)
  | inside (before : List Char) (d : Char) (split : front = before ++ [d])
      (begun : byteLength before < offset) (open_ : offset < byteLength front)
      (quoted : s.mode = .quoted) (start : s.phase = .start)
  | past (ended : rest = []) (beyond : byteLength front ≤ offset)

/-- The search beside the scan. -/
structure Meets (text : List Char) (c : Cursor) (front rest : List Char) (s : State) : Prop where
  along : Along text c.found front rest s
  modes : c.modes = s.mode :: s.around
  place : Place s front rest c.offset

/-- The search stands beside the scan of its text. -/
def Aligned (text : List Char) (c : Cursor) : Prop :=
  ∃ front rest s, Meets text c front rest s

theorem Aligned.initial (text : List Char) : Aligned text .initial :=
  ⟨[], text, .initial, ⟨rfl, rfl, rfl⟩, rfl, .between rfl (fresh_start rfl text).prompt⟩

variable {c : Cursor} {stop : Nat} {b : Char}

theorem Along.goTo (along : Along text c.found front rest s) (modes : c.modes = s.mode :: s.around)
    (stops : Stops s front rest stop) : Aligned text (c.goTo stop) := by
  obtain ⟨piece, after, t, rfl, passes, rfl⟩ := stops
  refine ⟨front ++ piece, after, t, along.pass piece passes.scanned, ?_, .between rfl passes.prompt⟩
  rw [passes.mode, passes.around]
  exact modes

/-- The search before a character that is taken for itself. -/
structure Stands (text : List Char) (c : Cursor) (front rest : List Char) (s : State) : Prop where
  along : Along text c.found front rest s
  modes : c.modes = s.mode :: s.around
  offset : c.offset = byteLength front
  prompt : Prompt s rest

namespace Stands

theorem byte (stands : Stands text c front (d :: rest) s)
    (here : (bytes text)[c.offset]? = some b) : byteAt (d :: rest) 0 = b := by
  rw [stands.along.split, stands.offset] at here
  rw [← byteAt_append front, byteAt, Nat.add_zero, here]
  rfl

theorem next (stands : Stands text c front (d :: rest) s) (low : d.toNat < 128) (k : Nat) :
    byteAt text (c.offset + (k + 1)) = byteAt rest k := by
  rw [stands.along.split, stands.offset, byteAt_append, byteAt_succ low]

theorem sign (stands : Stands text c front (d :: rest) s) (low : d.toNat < 128)
    (taken : freshStep s d rest = t) (start : t.phase = .start) {modes : List Mode}
    (turned : modes = t.mode :: t.around) :
    Aligned text { c with offset := c.offset + 1, modes } := by
  have scanned := stands.prompt.scans
  rw [taken] at scanned
  refine ⟨front ++ [d], rest, { t with previous := d }, stands.along.pass [d] scanned, turned,
    .between ?_ (@fresh_start { t with previous := d } start rest).prompt⟩
  rw [stands.offset, byteLength_append, byteLength_ascii low, byteLength_nil]

end Stands

theorem Place.after_byte (quoted : s.mode = .quoted) (start : s.phase = .start) (front : List Char)
    (d : Char) (rest : List Char) : Place s (front ++ [d]) rest (byteLength front + 1) := by
  by_cases low : d.toNat < 128
  · refine .between ?_ (fresh_start start rest).prompt
    rw [byteLength_append, byteLength_ascii low, byteLength_nil]
  · have size := one_lt_byteLength (Nat.le_of_not_lt low)
    refine .inside front d rfl (by omega) ?_ quoted start
    rw [byteLength_append]
    omega

theorem quotedRound_high (high : 128 ≤ b.toNat) (text : List Char) (c : Cursor) :
    quotedRound text c b = c.goTo (c.offset + 1) := by
  have other (d : Char) (low : d.toNat < 128) : b ≠ d := by
    rintro rfl
    exact absurd low (Nat.not_lt.mpr high)
  simp [quotedRound, other]

theorem Along.inside (along : Along text c.found (front ++ [d]) rest s)
    (modes : c.modes = s.mode :: s.around) (begun : byteLength front < c.offset)
    (open_ : c.offset < byteLength (front ++ [d])) (quoted : s.mode = .quoted)
    (start : s.phase = .start) (here : (bytes text)[c.offset]? = some b) :
    Aligned text (quotedRound text c b) := by
  have high : 128 ≤ d.toNat := by
    by_contra low
    rw [byteLength_append, byteLength_ascii (Nat.lt_of_not_le low), byteLength_nil] at open_
    omega
  have member : b ∈ bytes [d] := by
    obtain ⟨k, place⟩ := Nat.exists_eq_add_of_lt begun
    have within : k + 1 < (bytes [d]).length := by
      rw [length_bytes]
      rw [byteLength_append] at open_
      omega
    rw [along.split, List.append_assoc, place, Nat.add_assoc, getElem?_bytes, bytes_append,
      List.getElem?_append_left within] at here
    exact List.mem_of_getElem? here
  rw [quotedRound_high (bytes_high high member)]
  refine ⟨front ++ [d], rest, s, along, modes, ?_⟩
  rcases Nat.lt_or_ge (c.offset + 1) (byteLength (front ++ [d])) with more | ended
  · exact .inside front d rfl (Nat.lt_succ_of_lt begun) more quoted start
  · exact .between (Nat.le_antisymm open_ ended) (fresh_start start rest).prompt

theorem isTemplateSign_cases (template : isTemplateSign d = true) : d = '$' ∨ d = '%' := by
  simpa [isTemplateSign] using template

namespace Stands

theorem plain (stands : Stands text c front (d :: rest) s) (quoted : s.mode = .quoted)
    (meaningless : quotedStep s d rest = s.goOn .start) :
    Aligned text (c.goTo (c.offset + 1)) := by
  have scanned := stands.prompt.scans
  simp only [freshStep, quoted, meaningless] at scanned
  refine ⟨front ++ [d], rest, _, stands.along.pass [d] scanned, stands.modes, ?_⟩
  rw [Cursor.goTo, stands.offset]
  exact Place.after_byte (s := { s.goOn .start with previous := d }) quoted rfl front d rest

theorem escape (stands : Stands text c front ('\\' :: rest) s) (quoted : s.mode = .quoted) :
    Aligned text (c.goTo (c.offset + 2)) := by
  have first := stands.prompt.scans
  simp only [freshStep, quoted, quotedStep] at first
  have passed := stands.along.pass ['\\'] first
  have start : c.offset + 1 = byteLength (front ++ ['\\']) := by
    rw [stands.offset, byteLength_append, byteLength_ascii (by decide), byteLength_nil]
  cases rest with
  | nil =>
    refine ⟨front ++ ['\\'], [], _, passed, stands.modes, .past rfl ?_⟩
    rw [← start]
    exact Nat.le_succ _
  | cons d rest =>
    have second := scans_taken (phaseStep_skip_one
      (s := { s.goOn (.skip 1 .start) with previous := '\\' }) rfl d rest)
    refine ⟨front ++ ['\\'] ++ [d], rest, _, passed.pass [d] second, stands.modes, ?_⟩
    rw [Cursor.goTo, show c.offset + 2 = byteLength (front ++ ['\\']) + 1 by rw [← start]]
    exact Place.after_byte (s := { s.goOn .start with previous := d }) quoted rfl _ d rest

/-- A doubled sign before a brace opens nothing. -/
theorem doubled (stands : Stands text c front (d :: d :: '{' :: rest) s)
    (quoted : s.mode = .quoted) (template : isTemplateSign d = true) :
    Aligned text (c.goTo (c.offset + 3)) := by
  have signs := isTemplateSign_cases template
  have low : d.toNat < 128 := by rcases signs with rfl | rfl <;> decide
  have taken : quotedStep s d (d :: '{' :: rest) = s.goOn (.skip 2 .start) := by
    rcases signs with rfl | rfl <;> rfl
  have first := stands.prompt.scans
  simp only [freshStep, quoted, taken] at first
  have second : Scans Unmarked { s.goOn (.skip 2 .start) with previous := d } [d] ('{' :: rest)
      { s.goOn (.skip 1 .start) with previous := d } :=
    scans_taken (t := { s.goOn (.skip 1 .start) with previous := d })
      (by simp [phaseStep, State.goOn])
  have third := scans_taken (phaseStep_skip_one
    (s := { s.goOn (.skip 1 .start) with previous := d }) rfl '{' rest)
  have passed := ((stands.along.pass [d] first).pass [d] second).pass ['{'] third
  refine ⟨front ++ [d] ++ [d] ++ ['{'], rest, _, passed, stands.modes,
    .between ?_ (@fresh_start { s.goOn .start with previous := '{' } rfl rest).prompt⟩
  show c.offset + 3 = _
  simp [stands.offset, byteLength_ascii, low]

theorem template (stands : Stands text c front (d :: '{' :: rest) s) (quoted : s.mode = .quoted)
    (template : isTemplateSign d = true) :
    Aligned text { c with offset := c.offset + 2, modes := .code 0 :: c.modes } := by
  have signs := isTemplateSign_cases template
  have low : d.toNat < 128 := by rcases signs with rfl | rfl <;> decide
  have taken : quotedStep s d ('{' :: rest) = s.enter (.code 0) (.skip 1 .start) := by
    rcases signs with rfl | rfl <;> rfl
  have first := stands.prompt.scans
  simp only [freshStep, quoted, taken] at first
  have second := scans_taken (phaseStep_skip_one
    (s := { s.enter (.code 0) (.skip 1 .start) with previous := d }) rfl '{' rest)
  have passed := (stands.along.pass [d] first).pass ['{'] second
  refine ⟨front ++ [d] ++ ['{'], rest, _, passed, congrArg (Mode.code 0 :: ·) stands.modes,
    .between ?_ (@fresh_start { s.enter (.code 0) .start with previous := '{' } rfl rest).prompt⟩
  show c.offset + 2 = _
  simp [stands.offset, byteLength_ascii, low]

theorem quotedRound (stands : Stands text c front (d :: rest) s) (quoted : s.mode = .quoted)
    (enclosed : s.around ≠ []) (here : (bytes text)[c.offset]? = some b) :
    Aligned text (quotedRound text c b) := by
  have first := stands.byte here
  by_cases low : d.toNat < 128
  · rw [byteAt_zero low] at first
    subst first
    unfold ByteScan.quotedRound
    simp only [stands.next low 0, show c.offset + 2 = c.offset + (1 + 1) from rfl,
      stands.next low 1]
    split
    · rename_i slash
      subst slash
      exact stands.escape quoted
    split
    · rename_i doubled
      simp only [Bool.and_eq_true, decide_eq_true_eq] at doubled
      obtain ⟨⟨template, same⟩, brace⟩ := doubled
      have visible : 0 < d.toNat := by
        rcases isTemplateSign_cases template with rfl | rfl <;> decide
      obtain ⟨more, rfl⟩ := (byteAt_eq_iff ⟨visible, low⟩).mp same
      rw [byteAt_succ low] at brace
      obtain ⟨more, rfl⟩ := (byteAt_eq_iff (by decide)).mp brace
      exact stands.doubled quoted template
    split
    · rename_i opens
      simp only [Bool.and_eq_true, decide_eq_true_eq] at opens
      obtain ⟨template, brace⟩ := opens
      obtain ⟨more, rfl⟩ := (byteAt_eq_iff (by decide)).mp brace
      exact stands.template quoted template
    split
    · rename_i ends
      obtain ⟨mode, around, shape⟩ := List.exists_cons_of_ne_nil enclosed
      have leaves : freshStep s d rest = s.leave := by
        simp only [Bool.or_eq_true, decide_eq_true_eq] at ends
        rcases ends with rfl | rfl <;> simp [freshStep, quoted, quotedStep]
      exact stands.sign low leaves (leave_phase s) (by simp [State.leave, stands.modes, shape])
    · rename_i slash doubled opens ends
      refine stands.plain quoted ?_
      unfold quotedStep
      split
      · exact absurd rfl slash
      · simp [byteAt_zero, byteAt_succ] at doubled
      · simp [byteAt_zero, byteAt_succ] at doubled
      · simp [byteAt_zero] at opens
      · simp [byteAt_zero] at opens
      · simp at ends
      · simp at ends
      · rfl
  · have high := Nat.le_of_not_lt low
    have other (e : Char) (ascii : e.toNat < 128) : d ≠ e := by
      rintro rfl
      exact low ascii
    have meaningless : isQuotedPlain d = true := by simp [isQuotedPlain, other]
    rw [quotedRound_high (first ▸ byteAt_zero_high high rest)]
    exact stands.plain quoted (quotedStep_plain s rest meaningless)

end Stands

end Hcl.ByteScan

end TerraDoc
