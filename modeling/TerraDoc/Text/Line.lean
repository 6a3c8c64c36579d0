/-!
Cutting a text at a separator and into lines. A line ends with a line feed; `lines` also drops
one carriage return directly before it, and `pieces` keeps the whole text.
-/

namespace TerraDoc.Text

/-- The text before and after the first `separator`, if there is one. -/
def cut (separator : Char) : List Char → Option (List Char × List Char)
  | [] => none
  | c :: rest =>
      if c = separator then some ([], rest)
      else (cut separator rest).map fun (before, after) => (c :: before, after)

/-- The lines of a text, each with its line feed. -/
def pieces : List Char → List (List Char)
  | [] => []
  | c :: rest =>
      if c = '\n' then ['\n'] :: pieces rest
      else match pieces rest with
        | [] => [[c]]
        | piece :: others => (c :: piece) :: others

/-- A piece without its line end, LF or CR LF. -/
def stripLineEnd (piece : List Char) : List Char :=
  match piece.reverse with
  | '\n' :: '\r' :: before => before.reverse
  | '\n' :: before => before.reverse
  | _ => piece

def lines (text : List Char) : List (List Char) :=
  (pieces text).map stripLineEnd

/-- The text after `lead`, if it starts with `lead`. -/
def after? : (lead : List Char) → List Char → Option (List Char)
  | [], text => some text
  | _ :: _, [] => none
  | l :: lead, c :: text => if l = c then after? lead text else none

def contains (part : List Char) : List Char → Bool
  | [] => part.isEmpty
  | c :: rest => part.isPrefixOf (c :: rest) || contains part rest

theorem cut_eq_some_iff (separator : Char) (text before after : List Char) :
    cut separator text = some (before, after) ↔
      text = before ++ separator :: after ∧ separator ∉ before := by
  induction text generalizing before with
  | nil => simp [cut]
  | cons c rest inductionHypothesis =>
      by_cases here : c = separator
      · subst here
        cases before with
        | nil => simp [cut, eq_comm]
        | cons b before => simp +contextual [cut, eq_comm]
      · cases before with
        | nil => simp [cut, here]
        | cons b before =>
            simp only [cut, if_neg here, Option.map_eq_some_iff, Prod.exists, Prod.mk.injEq,
              List.cons.injEq, List.cons_append, List.mem_cons, not_or]
            constructor
            · rintro ⟨start, finish, found, ⟨rfl, rfl⟩, rfl⟩
              obtain ⟨split, clean⟩ := (inductionHypothesis start).mp found
              exact ⟨⟨rfl, split⟩, fun same => here same.symm, clean⟩
            · rintro ⟨⟨rfl, split⟩, -, clean⟩
              exact ⟨before, after, (inductionHypothesis before).mpr ⟨split, clean⟩,
                ⟨rfl, rfl⟩, rfl⟩

theorem cut_eq_none_iff (separator : Char) (text : List Char) :
    cut separator text = none ↔ separator ∉ text := by
  induction text with
  | nil => simp [cut]
  | cons c rest inductionHypothesis =>
      by_cases here : c = separator
      · simp [cut, here]
      · simp [cut, here, inductionHypothesis, Ne.symm here]

@[simp] theorem flatten_pieces (text : List Char) : (pieces text).flatten = text := by
  induction text with
  | nil => rfl
  | cons c rest inductionHypothesis =>
      unfold pieces
      by_cases feed : c = '\n'
      · simp [feed, inductionHypothesis]
      · rw [if_neg feed]
        cases split : pieces rest with
        | nil => simp [split] at inductionHypothesis; simp [inductionHypothesis]
        | cons piece others => simpa [split] using inductionHypothesis

theorem after?_append (lead text : List Char) : after? lead (lead ++ text) = some text := by
  induction lead with
  | nil => rfl
  | cons l lead inductionHypothesis => simpa [after?] using inductionHypothesis

theorem after?_eq_some_iff (lead text rest : List Char) :
    after? lead text = some rest ↔ text = lead ++ rest := by
  constructor
  · induction lead generalizing text with
    | nil => intro found; simpa [after?] using found
    | cons l lead inductionHypothesis =>
        intro found
        cases text with
        | nil => simp [after?] at found
        | cons c text =>
            by_cases same : l = c
            · subst same
              simp only [after?, if_pos] at found
              simp [inductionHypothesis text found]
            · simp [after?, same] at found
  · rintro rfl
    exact after?_append lead rest

end TerraDoc.Text
