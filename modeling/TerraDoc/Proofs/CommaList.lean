import Mathlib.Data.List.Basic

namespace TerraDoc.Hcl

variable {α : Type} (gap : List Char) (written : α → List Char)

/-- What is written for the items after the first: each has a comma before it. -/
def moreText : List α → List Char
  | [] => []
  | item :: rest => ',' :: (gap ++ (written item ++ moreText rest))

/-- What is written for some items. -/
def listText : List α → List Char
  | [] => []
  | item :: rest => written item ++ moreText gap written rest

/-- What is written for an entry. -/
def entryText (key : α → List Char) (entry : α) : List Char :=
  key entry ++ (gap ++ '=' :: (gap ++ written entry))

variable {gap written} {items : List α} {c : Char}

theorem mem_moreText (inside : c ∈ moreText gap written items) :
    c = ',' ∨ c ∈ gap ∨ ∃ item ∈ items, c ∈ written item := by
  induction items with
  | nil => cases inside
  | cons item rest ih =>
    rw [moreText, List.mem_cons, List.mem_append, List.mem_append] at inside
    rcases inside with rfl | inside | inside | inside
    · exact .inl rfl
    · exact .inr (.inl inside)
    · exact .inr (.inr ⟨item, List.mem_cons_self, inside⟩)
    · refine (ih inside).imp_right (.imp_right ?_)
      rintro ⟨other, member, inside⟩
      exact ⟨other, List.mem_cons_of_mem _ member, inside⟩

theorem mem_listText (inside : c ∈ listText gap written items) :
    c = ',' ∨ c ∈ gap ∨ ∃ item ∈ items, c ∈ written item := by
  cases items with
  | nil => cases inside
  | cons item rest =>
    have later : c ∈ moreText gap written (item :: rest) :=
      List.mem_cons_of_mem _ (List.mem_append_right gap inside)
    exact mem_moreText later

theorem listText_eq_intercalate (items : List α) :
    listText gap written items = (',' :: gap).intercalate (items.map written) := by
  cases items with
  | nil => rfl
  | cons item rest =>
    rw [listText]
    induction rest generalizing item with
    | nil => rw [moreText, List.append_nil, List.map_singleton, List.intercalate_singleton]
    | cons other rest ih =>
      rw [List.map_cons, List.map_cons, List.intercalate_cons_cons, ← List.map_cons, ← ih other,
        moreText, List.append_assoc, List.cons_append]

theorem mem_entryText {key : α → List Char} {entry : α}
    (inside : c ∈ entryText gap written key entry) :
    c = '=' ∨ c ∈ gap ∨ c ∈ key entry ∨ c ∈ written entry := by
  simp only [entryText, List.mem_append, List.mem_cons] at inside
  tauto

end TerraDoc.Hcl
