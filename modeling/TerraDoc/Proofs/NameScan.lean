import TerraDoc.Proofs.ExponentScan

namespace TerraDoc.Hcl

open Exponent

/-- What may follow a word that the normaliser has seen whole. -/
def WordEnds (text : List Char) : Prop :=
  ∀ c rest, text = c :: rest →
    (isWord c = true → startsWord c = true) ∧ (c = ':' → rest.head? ≠ some ':')

theorem wordEnds_of_not_continues {c : Char} {rest : List Char}
    (other : (Text.continuesIdentifier c || c == '-') = false)
    (single : c = ':' → rest.head? ≠ some ':') : WordEnds (c :: rest) := by
  rintro _ _ ⟨⟩
  refine ⟨fun word => ?_, single⟩
  simp only [Bool.or_eq_false_iff, beq_eq_false_iff_ne] at other
  by_cases ascii : c.toNat < 128
  · simp only [Text.continuesIdentifier, if_pos ascii, Bool.or_eq_false_iff] at other
    simp only [isWord, other.1.1, other.1.2, Bool.false_or, Bool.or_eq_true, beq_iff_eq, other.2,
      false_or, decide_eq_true_eq] at word
    omega
  · simp only [startsWord, Bool.or_eq_true, decide_eq_true_eq]
    exact .inr (Nat.le_of_not_lt ascii)

/-- The tail of a name is one of a word, and nothing after it goes on with the word. -/
theorem nameTail_shape (text : List Char) :
    text = (nameTail text).1 ++ (nameTail text).2 ∧ WordTail (nameTail text).1 ∧
      WordEnds (nameTail text).2 := by
  fun_induction nameTail text with
  | case1 rest tail after ends ih =>
    rw [ends] at ih
    obtain ⟨split, shape, stops⟩ := ih
    exact ⟨by simp [split], .colons shape, stops⟩
  | case2 c rest colons continues tail after ends ih =>
    rw [ends] at ih
    obtain ⟨split, shape, stops⟩ := ih
    refine ⟨by simp [split], .char ?_ shape, stops⟩
    rcases Bool.or_eq_true_iff.mp continues with continues | dash
    · exact isWord_of_continuesIdentifier continues
    · rw [beq_iff_eq.mp dash]
      rfl
  | case3 c rest colons continues =>
    refine ⟨rfl, .nil, wordEnds_of_not_continues (by simpa using continues) ?_⟩
    rintro rfl next
    cases rest with
    | nil => cases next
    | cons d rest =>
      cases next
      exact colons rest rfl rfl
  | case4 => exact ⟨rfl, .nil, fun _ _ split => nomatch split⟩

theorem Exponent.WordTail.mem {tail : List Char} (shape : WordTail tail) {c : Char}
    (inside : c ∈ tail) : isWord c = true ∨ c = ':' := by
  induction shape with
  | nil => cases inside
  | char word _ ih =>
    rcases List.mem_cons.mp inside with rfl | inside
    · exact .inl word
    · exact ih inside
  | colons _ ih =>
    simp only [List.mem_cons] at inside
    rcases inside with rfl | rfl | inside
    · exact .inr rfl
    · exact .inr rfl
    · exact ih inside

theorem Exponent.WordTail.unpointed {tail : List Char} (shape : WordTail tail) : '.' ∉ tail :=
  fun inside => absurd (shape.mem inside) (by decide)

theorem name?_none {c : Char} (other : startsWord c = false) (rest : List Char) :
    name? (c :: rest) = none := by
  have begins : ¬ (Text.startsIdentifier c || c == '_') = true := by
    rw [Bool.or_eq_true, beq_iff_eq]
    rintro (identifier | rfl)
    · rw [startsWord_of_startsIdentifier identifier] at other
      cases other
    · cases other
  rw [name?, if_neg begins]

theorem name?_shape {text word : List Char} (found : name? text = some word) :
    ∃ c tail after, text = c :: tail ++ after ∧ word = c :: tail ∧ startsWord c = true ∧
      WordTail tail ∧ WordEnds after := by
  cases text with
  | nil => cases found
  | cons c rest =>
    obtain ⟨split, shape, ends⟩ := nameTail_shape rest
    have starts : startsWord c = true := by
      by_contra other
      rw [name?_none (by simpa using other)] at found
      cases found
    rw [name?] at found
    split at found
    · exact ⟨c, _, _, by rw [List.cons_append, ← split], (Option.some.inj found).symm, starts,
        shape, ends⟩
    · cases found

theorem name_no_null {word : List Char} (whole : name? word = some word) : '\x00' ∉ word := by
  obtain ⟨c, tail, none, split, rfl, starts, shape, -⟩ := name?_shape whole
  intro inside
  rcases List.mem_cons.mp inside with rfl | inside
  · cases starts
  · exact absurd (shape.mem inside) (by decide)

/-- What cannot go on with a name. -/
def NameEnds (after : List Char) : Prop :=
  ∀ c ∈ after.head?, Text.continuesIdentifier c = false ∧ c ≠ '-' ∧ c ≠ ':'

theorem nameTail_append {tail after : List Char} (whole : (nameTail tail).1 = tail)
    (ends : NameEnds after) : nameTail (tail ++ after) = (tail, after) := by
  fun_induction nameTail tail with
  | case1 rest tail left same ih =>
    rw [same] at ih
    rw [List.cons_append, List.cons_append, nameTail, ih (by simpa using whole)]
  | case2 c rest colons continues tail left same ih =>
    rw [same] at ih
    have colon : c ≠ ':' := by rintro rfl; exact absurd continues (by decide)
    have later := ih (by simpa using whole)
    rw [List.cons_append, nameTail.eq_def]
    split <;> simp_all
  | case3 c rest colons continues => cases whole
  | case4 =>
    cases after with
    | nil => rfl
    | cons c rest =>
      obtain ⟨continues, dash, colon⟩ := ends c rfl
      rw [List.nil_append, nameTail.eq_def]
      split <;> simp_all

theorem name?_append {word after : List Char} (whole : name? word = some word)
    (ends : NameEnds after) : name? (word ++ after) = some word := by
  cases word with
  | nil => cases whole
  | cons c tail =>
    rw [name?] at whole
    split at whole
    · rename_i first
      have tail_eq : (nameTail tail).1 = tail := by simpa using whole
      rw [List.cons_append, name?, if_pos first, nameTail_append tail_eq ends]
    · cases whole

/-- What may follow an expression in what is written. -/
def Ends (after : List Char) : Prop :=
  ∃ c rest, after = c :: rest ∧ c ∈ [',', ']', '}', ')', '=', ' ', '\n']

theorem Ends.head {after : List Char} (ends : Ends after) :
    ∃ c rest, after = c :: rest ∧ isWord c = false ∧ c.isDigit = false ∧ isMark c = false ∧
      c ≠ ':' ∧ c ≠ '.' := by
  obtain ⟨c, rest, rfl, membership⟩ := ends
  refine ⟨c, rest, rfl, ?_⟩
  have all : ∀ c ∈ [',', ']', '}', ')', '=', ' ', '\n'], isWord c = false ∧ c.isDigit = false ∧
      isMark c = false ∧ c ≠ ':' ∧ c ≠ '.' := List.all_iff_forall_prop.mp (by decide)
  exact all c membership

theorem Ends.name {after : List Char} (ends : Ends after) : NameEnds after := by
  obtain ⟨c, rest, rfl, membership⟩ := ends
  have all : ∀ c ∈ [',', ']', '}', ')', '=', ' ', '\n'],
      Text.continuesIdentifier c = false ∧ c ≠ '-' ∧ c ≠ ':' :=
    List.all_iff_forall_prop.mp (by decide)
  rintro _ ⟨⟩
  exact all c membership

end TerraDoc.Hcl
