import Mathlib.Data.List.Perm.Basic
import TerraDoc.Hcl.Literal
import TerraDoc.Proofs.DictionaryOrder
import TerraDoc.Proofs.Results

namespace TerraDoc

namespace Dictionary

variable {α β : Type} {gives gives' : β → String × α → Prop} {elements elements' : List β}
  {dictionary : Dictionary α}

/-- The dictionary of what elements give: an entry each, all with different keys. -/
def Collected (gives : β → String × α → Prop) (elements : List β)
    (dictionary : Dictionary α) : Prop :=
  ∃ entries, List.Forall₂ gives elements entries ∧ (entries.map Prod.fst).Nodup ∧
    dictionary = ofList entries

theorem Collected.perm (collected : Collected gives elements dictionary)
    (order : elements.Perm elements') : Collected gives elements' dictionary := by
  obtain ⟨entries, each, distinct, rfl⟩ := collected
  obtain ⟨entries', each', order'⟩ := List.perm_comp_forall₂ order.symm each
  exact ⟨entries', each', (order'.map Prod.fst).nodup_iff.mpr distinct,
    (ofList_eq_of_perm order' ((order'.map Prod.fst).nodup_iff.mpr distinct)).symm⟩

theorem collected_iff_of_perm {listed : List β} (order : elements.Perm listed)
    (same : List.Forall₂ (fun element element' => ∀ entry, gives element entry ↔
      gives' element' entry) listed elements') (dictionary : Dictionary α) :
    Collected gives elements dictionary ↔ Collected gives' elements' dictionary := by
  have moved : Collected gives elements dictionary ↔ Collected gives listed dictionary :=
    ⟨fun collected => collected.perm order, fun collected => collected.perm order.symm⟩
  rw [moved]
  simp only [Collected, forall₂_congr_left same]

theorem Collected.keys (collected : Collected gives elements dictionary) :
    ∃ keys : List String, List.Forall₂ (fun element key => ∃ value, gives element (key, value))
      elements keys ∧ keys.Nodup ∧ keys.Perm (dictionary.map Prod.fst) := by
  obtain ⟨entries, each, distinct, rfl⟩ := collected
  refine ⟨entries.map Prod.fst, ?_, distinct, ((ofList_perm distinct).map Prod.fst).symm⟩
  rw [List.forall₂_map_right_iff]
  exact each.imp fun element entry given => ⟨entry.2, given⟩

theorem Collected.mem (collected : Collected gives elements dictionary) {entry : String × α}
    (member : entry ∈ dictionary) : ∃ element ∈ elements, gives element entry := by
  obtain ⟨entries, each, distinct, rfl⟩ := collected
  exact exists_of_mem_right each ((ofList_perm distinct).mem_iff.mp member)

theorem Collected.gives_mem (collected : Collected gives elements dictionary) {element : β}
    (member : element ∈ elements) : ∃ entry ∈ dictionary, gives element entry := by
  obtain ⟨entries, each, distinct, rfl⟩ := collected
  obtain ⟨entry, inside, given⟩ := exists_of_mem_left each member
  exact ⟨entry, (ofList_perm distinct).mem_iff.mpr inside, given⟩

theorem Collected.ordered (collected : Collected gives elements dictionary) :
    dictionary.Ordered := by
  obtain ⟨entries, -, -, rfl⟩ := collected
  exact ordered_ofList entries

end Dictionary

namespace Hcl.Expr

open Dictionary

theorem valueOfItems_eq_mapM (items : List Expr) : valueOfItems items = items.mapM value := by
  induction items with
  | nil => rfl
  | cons item rest ih => rw [valueOfItems, List.mapM_cons, ih]

theorem valueOfElements_step (key e : Expr) (rest : List (Expr × Expr)) :
    valueOfElements ((key, e) :: rest) = do
      let name ← key.key
      let v ← e.value
      let others ← valueOfElements rest
      return (name, v) :: others := by
  rw [valueOfElements, Expr.key]
  split
  · rfl
  · simp only [bind_assoc]

/-- An element gives a map the entry of its key and its value. -/
def Entered (element : Expr × Expr) (entry : String × Value) : Prop :=
  element.1.key = .ok entry.1 ∧ element.2.value = .ok entry.2

theorem valueOfElements_eq_ok_iff {elements : List (Expr × Expr)}
    {entries : List (String × Value)} :
    valueOfElements elements = .ok entries ↔ List.Forall₂ Entered elements entries := by
  induction elements generalizing entries with
  | nil => simp [valueOfElements, eq_comm]
  | cons element rest ih =>
    obtain ⟨key, e⟩ := element
    rw [valueOfElements_step, List.forall₂_cons_left_iff]
    simp only [Except.bind_eq_ok, Except.pure_eq_ok, ih, Entered]
    constructor
    · rintro ⟨name, named, v, read, others, later, rfl⟩
      exact ⟨(name, v), others, ⟨named, read⟩, later, rfl⟩
    · rintro ⟨⟨name, v⟩, others, ⟨named, read⟩, later, rfl⟩
      exact ⟨name, named, v, read, others, later, rfl⟩

theorem value_object_iff {slice : Slice} {elements : List (Expr × Expr)} {v : Value} :
    (object slice elements).value = .ok v ↔
      ∃ entries, Collected Entered elements entries ∧ v = .map entries := by
  rw [Expr.value, Except.bind_eq_ok]
  simp only [valueOfElements_eq_ok_iff, Collected, Value.ofEntries]
  constructor
  · rintro ⟨entries, each, same⟩
    split at same
    · cases same
    · rename_i none
      cases same
      exact ⟨_, ⟨entries, each, repeated?_eq_none_iff.mp none, rfl⟩, rfl⟩
  · rintro ⟨_, ⟨entries, each, distinct, rfl⟩, rfl⟩
    exact ⟨entries, each, by rw [repeated?_eq_none_iff.mpr distinct]⟩

end Hcl.Expr

end TerraDoc
