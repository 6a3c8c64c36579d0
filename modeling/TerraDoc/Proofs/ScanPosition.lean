import TerraDoc.Proofs.ExponentScan

namespace TerraDoc.Hcl.Exponent

/-- The state after a text, with the text after it in view. -/
def scan (s : State) (text after : List Char) : State :=
  match text with
  | [] => s
  | c :: text => scan (step s c (text ++ after)).1 text after

/-- The state of the normaliser before a position of a source. -/
def stateAt (source : List Char) (position : Nat) : State :=
  scan .initial (source.take position) (source.drop position)

/-- Something about a state, a character and the text after it holds at a position of a source. -/
def Occurs (event : State → Char → List Char → Prop) (source : List Char) (position : Nat) : Prop :=
  ∃ c rest, source.drop position = c :: rest ∧ event (stateAt source position) c rest

variable {allowed : State → Char → List Char → Prop} {source text rest : List Char} {p : Nat}

theorem scan_append (s : State) (first second after : List Char) :
    scan s (first ++ second) after = scan (scan s first (second ++ after)) second after := by
  induction first generalizing s with
  | nil => rfl
  | cons c first ih =>
    rw [List.cons_append, scan, scan, List.append_assoc]
    exact ih _

theorem Scans.scan_eq {s t : State} {text after : List Char}
    (scanned : Scans allowed s text after t) : scan s text after = t := by
  induction scanned with
  | nil => rfl
  | cons _ _ ih => exact ih

theorem Scans.positionsFrom {s t : State} {text after : List Char}
    (scanned : Scans Unmarked s text after t) (p : Nat) :
    positionsFrom s p (text ++ after) = Exponent.positionsFrom t (p + text.length) after := by
  induction scanned generalizing p with
  | nil => rfl
  | @cons s t c text after step later ih =>
    unfold Unmarked at step
    rw [List.cons_append, Exponent.positionsFrom, List.length_cons, Nat.add_comm text.length,
      ← Nat.add_assoc, ← ih]
    simp [step]

theorem scan_previous (s : State) (text after : List Char) :
    (scan s text after).previous = text.getLast?.getD s.previous := by
  induction text generalizing s with
  | nil => rfl
  | cons c text ih =>
    rw [scan, ih]
    cases text with
    | nil => rfl
    | cons d text => simp [List.getLast?_eq_some_getLast]

theorem drop_of_split (text : List Char) (split : source.drop p = text ++ rest) :
    source.drop (p + text.length) = rest := by
  rw [← List.drop_drop, split, List.drop_left]

theorem stateAt_add (split : source.drop p = text ++ rest) :
    stateAt source (p + text.length) = scan (stateAt source p) text rest := by
  have taken : source.take (p + text.length) = source.take p ++ text := by
    rw [List.take_add, split, List.take_left]
  rw [stateAt, taken, drop_of_split text split, scan_append, stateAt, split]

theorem stateAt_succ {c : Char} (split : source.drop p = c :: rest) :
    stateAt source (p + 1) = (step (stateAt source p) c rest).1 :=
  @stateAt_add source [c] rest p split

theorem Scans.stateAt_eq {t : State} (scanned : Scans allowed (stateAt source p) text rest t)
    (split : source.drop p = text ++ rest) : stateAt source (p + text.length) = t := by
  rw [stateAt_add split]
  exact scanned.scan_eq

theorem Scans.occurs {t : State} (scanned : Scans allowed (stateAt source p) text rest t)
    (split : source.drop p = text ++ rest) {i : Nat} (start : p ≤ i)
    (before : i < p + text.length) : Occurs allowed source i := by
  induction text generalizing p with
  | nil => exact absurd before (by simpa using start)
  | cons c text ih =>
    cases scanned with
    | cons here later =>
      by_cases same : i = p
      · subst same
        exact ⟨c, text ++ rest, split, here⟩
      · have next : source.drop (p + 1) = text ++ rest := drop_of_split [c] split
        rw [List.length_cons] at before
        have moved : stateAt source (p + 1) = (step (stateAt source p) c (text ++ rest)).1 :=
          stateAt_succ split
        rw [← moved] at later
        exact ih later next (by omega) (by omega)

theorem Occurs.not_of {other : State → Char → List Char → Prop} {i : Nat}
    (occurs : Occurs allowed source i)
    (excludes : ∀ s c rest, allowed s c rest → ¬ other s c rest) : ¬ Occurs other source i := by
  rintro ⟨d, tail, there, holds'⟩
  obtain ⟨c, rest, here, holds⟩ := occurs
  obtain ⟨rfl, rfl⟩ : c = d ∧ rest = tail := by simpa [here] using there
  exact excludes _ c rest holds holds'

end TerraDoc.Hcl.Exponent
