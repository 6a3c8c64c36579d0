import TerraDoc.Proofs.ExponentInsertion

namespace TerraDoc.Hcl.Exponent

/-- A text without the points at some positions of its source and the zeros after them, scanning on
from a position. -/
def elideFrom (points : List Nat) (position : Nat) : List Char → List Char
  | [] => []
  | c :: rest =>
      if points.any fun point => position == point || position == point + 1 then
        elideFrom points (position + 1) rest
      else c :: elideFrom points (position + 1) rest

/-- The source without the points at some positions and the zeros after them. -/
def elide (points : List Nat) (source : List Char) : List Char :=
  elideFrom points 0 source

variable {source : List Char} {points : List Nat} {p : Nat} {c : Char} {rest : List Char}

theorem elideFrom_keep (others : ∀ point ∈ points, p ≠ point ∧ p ≠ point + 1) :
    elideFrom points p (c :: rest) = c :: elideFrom points (p + 1) rest := by
  rw [elideFrom, if_neg]
  simpa using others

theorem elideFrom_skip (member : p ∈ points ∨ ∃ point ∈ points, p = point + 1) :
    elideFrom points p (c :: rest) = elideFrom points (p + 1) rest := by
  rw [elideFrom, if_pos]
  rw [List.any_eq_true]
  rcases member with member | ⟨point, member, same⟩
  · exact ⟨p, member, by simp⟩
  · exact ⟨point, member, by simp [same]⟩

/-- Without what the normaliser added to it a text is what it was. -/
theorem elideFrom_normalizeFrom {s : State} {text : List Char}
    (added : ∀ q, p ≤ q → (q ∈ points ↔ q ∈ insertionsFrom s p text))
    (outside : ∀ q ∈ points, p ≠ q + 1) :
    elideFrom points p (normalizeFrom s text) = text := by
  induction text generalizing s p with
  | nil => rfl
  | cons c rest ih =>
    cases taken : step s c rest with
    | mk next bare =>
      simp only [insertionsFrom, normalizeFrom, taken] at added ⊢
      cases bare with
      | true =>
        simp only [if_true, List.mem_cons] at added ⊢
        have chosen : p ∈ points := (added p le_rfl).mpr (.inl rfl)
        have apart (q : Nat) (member : q ∈ points) : q ≠ p + 1 ∧ q ≠ p + 2 := by
          by_cases before : q < p
          · omega
          · rcases (added q (Nat.le_of_not_lt before)).mp member with rfl | later
            · omega
            · have after := le_of_insertionsFrom later
              omega
        rw [elideFrom_skip (.inl chosen), elideFrom_skip (.inr ⟨p, chosen, rfl⟩),
          elideFrom_keep fun q member => ?_, ih (s := next) (fun q after => ?_) fun q member => ?_]
        · rw [added q (by omega), or_iff_right (by omega)]
        · have other := apart q member
          omega
        · have other := apart q member
          omega
      | false =>
        have kept : p ∉ points := fun member => by
          have after := le_of_insertionsFrom ((added p le_rfl).mp member)
          omega
        simp only [Bool.false_eq_true, if_false] at added ⊢
        rw [elideFrom_keep fun q member => ⟨?_, outside q member⟩,
          ih (s := next) (fun q after => added q (by omega)) fun q member => ?_]
        · rintro same
          exact kept (Nat.succ.inj same ▸ member)
        · rintro rfl
          exact kept member

/-- A point of a number at a position of a source, with a zero and an exponent after it. -/
structure ZeroFraction (source : List Char) (position : Nat) : Prop where
  point : Occurs Point source position
  shape : ∃ mark rest, source.drop position = '.' :: '0' :: mark :: rest ∧ isMark mark = true ∧
    powerFollows rest = true

theorem ZeroFraction.apart {q : Nat} (first : ZeroFraction source p)
    (second : ZeroFraction source q) : q ≠ p + 1 ∧ q ≠ p + 2 := by
  obtain ⟨-, mark, rest, split, isMarked, -⟩ := first
  obtain ⟨-, mark', rest', split', -⟩ := second
  constructor
  · rintro rfl
    rw [show source.drop (p + 1) = '0' :: mark :: rest from drop_of_split ['.'] split] at split'
    cases split'
  · rintro rfl
    rw [show source.drop (p + 2) = mark :: rest from drop_of_split ['.', '0'] split] at split'
    rw [(List.cons.inj split').1] at isMarked
    cases isMarked

/-- A normal source in which every pair of signs `<` opens a heredoc goes in step with what is left
of it without some of its zero fractions. -/
theorem elides_elideFrom (normal : ∀ i < source.length, Occurs Unmarked source i)
    (opened : ∀ i, ¬ Occurs Unopened source i) (zeros : ∀ q ∈ points, ZeroFraction source q)
    (p : Nat) (outside : ∀ q ∈ points, p ≠ q + 1) :
    Elides (stateAt source p) (elideFrom points p (source.drop p)) (source.drop p) := by
  by_cases ended : source.length ≤ p
  · rw [List.drop_eq_nil_of_le ended]
    exact .nil _
  · obtain ⟨c, rest, split, unmarked⟩ := normal p (Nat.lt_of_not_le ended)
    by_cases chosen : p ∈ points
    · have zero := zeros p chosen
      obtain ⟨⟨_, _, _, digits, -⟩, mark, rest, split, isMarked, follows⟩ := id zero
      have state : stateAt source (p + 3) = (step (stateAt source p) mark rest).1 :=
        (scans_insertion digits isMarked follows).stateAt_eq split
      have left : source.drop (p + 3) = rest := drop_of_split ['.', '0', mark] split
      have later := elides_elideFrom normal opened zeros (p + 3) fun q member same =>
        (zero.apart (zeros q member)).2 (Nat.succ.inj same).symm
      rw [state, left] at later
      rw [split, elideFrom_skip (.inl chosen), elideFrom_skip (.inr ⟨p, chosen, rfl⟩),
        elideFrom_keep fun q member => ?_]
      · exact .insert rest (.inr rfl) digits isMarked follows later
      · have other := zero.apart (zeros q member)
        omega
    · have state := stateAt_succ split
      have left : source.drop (p + 1) = rest := drop_of_split [c] split
      have later := elides_elideFrom normal opened zeros (p + 1) fun q member same =>
        chosen (Nat.succ.inj same ▸ member)
      rw [state, left] at later
      rw [split, elideFrom_keep fun q member => ⟨?_, outside q member⟩]
      · refine .keep rest (.inr rfl) unmarked (.inr fun unopened => opened p ?_) later
        exact ⟨c, rest, split, unopened⟩
      · rintro rfl
        exact chosen member
termination_by source.length - p

theorem elide_insertions (source : List Char) :
    elide (insertions source) (normalize source) = source := by
  rw [insertions_eq]
  exact elideFrom_normalizeFrom (fun _ _ => Iff.rfl) fun _ _ => Nat.zero_ne_add_one _

theorem normalize_elide (normal : ∀ i < source.length, Occurs Unmarked source i)
    (opened : ∀ i, ¬ Occurs Unopened source i) (zeros : ∀ q ∈ points, ZeroFraction source q) :
    normalize (elide points source) = source :=
  (elides_elideFrom normal opened zeros 0 fun _ _ => Nat.zero_ne_add_one _).normalizeFrom_eq

end TerraDoc.Hcl.Exponent
