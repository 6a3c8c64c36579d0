import Mathlib.Data.List.Induction
import TerraDoc.Dictionary

namespace TerraDoc.Dictionary

variable {α : Type}

theorem insert_last (entries : Dictionary α) (key : String) (value : α)
    (before : ∀ entry ∈ entries, entry.1 < key) :
    insert key value entries = entries ++ [(key, value)] := by
  induction entries with
  | nil => rfl
  | cons entry rest ih =>
    obtain ⟨k, v⟩ := entry
    have smaller : k < key := before (k, v) List.mem_cons_self
    have different : key ≠ k := by
      rintro rfl
      exact String.lt_irrefl key smaller
    rw [insert, if_neg (String.lt_asymm smaller), if_neg different,
      ih fun entry membership => before entry (List.mem_cons_of_mem _ membership)]
    rfl

theorem foldl_insert (entries before : Dictionary α) (ordered : Ordered (before ++ entries)) :
    entries.foldl (fun dictionary (key, value) => dictionary.insert key value) before =
      before ++ entries := by
  induction entries generalizing before with
  | nil => simp
  | cons entry rest ih =>
    obtain ⟨key, value⟩ := entry
    have last : insert key value before = before ++ [(key, value)] :=
      insert_last before key value fun smaller membership =>
        (List.pairwise_append.mp ordered).2.2 smaller membership _ List.mem_cons_self
    rw [List.foldl_cons]
    show List.foldl _ (insert key value before) rest = _
    rw [last, ih]
    · simp
    · simpa using ordered

theorem ofList_of_ordered {entries : Dictionary α} (ordered : Ordered entries) :
    ofList entries = entries :=
  foldl_insert entries [] ordered

theorem Ordered.keys {entries : Dictionary α} (ordered : Ordered entries) :
    (entries.map Prod.fst).Pairwise (· < ·) :=
  List.pairwise_map.mpr ordered

theorem Ordered.nodup {entries : Dictionary α} (ordered : Ordered entries) :
    (entries.map Prod.fst).Nodup := by
  apply ordered.keys.imp
  intro first second smaller equal
  rw [equal] at smaller
  exact String.lt_irrefl second smaller

theorem repeated?_go_eq_none_iff (entries : List (String × α)) (seen : List String) :
    repeated?.go seen entries = none ↔
      (entries.map Prod.fst).Nodup ∧ ∀ key ∈ seen, key ∉ entries.map Prod.fst := by
  induction entries generalizing seen with
  | nil => simp [repeated?.go]
  | cons entry rest ih =>
    obtain ⟨key, value⟩ := entry
    rw [repeated?.go]
    split
    · rename_i again
      rw [List.contains_eq_mem, decide_eq_true_eq] at again
      simp only [reduceCtorEq, false_iff, not_and, not_forall, not_not]
      exact fun _ => ⟨key, again, List.mem_cons_self⟩
    · rename_i fresh
      rw [List.contains_eq_mem, decide_eq_true_eq] at fresh
      rw [ih, List.map_cons, List.nodup_cons, List.forall_mem_cons]
      constructor
      · rintro ⟨distinct, apart, earlier⟩
        refine ⟨⟨apart, distinct⟩, fun k member => ?_⟩
        rw [List.mem_cons, not_or]
        exact ⟨ne_of_mem_of_not_mem member fresh, earlier k member⟩
      · rintro ⟨⟨apart, distinct⟩, earlier⟩
        exact ⟨distinct, apart, fun k member inside =>
          earlier k member (List.mem_cons_of_mem _ inside)⟩

theorem repeated?_eq_none_iff {entries : List (String × α)} :
    repeated? entries = none ↔ (entries.map Prod.fst).Nodup :=
  (repeated?_go_eq_none_iff entries []).trans (by simp)

theorem find?_eq_none_iff {entries : Dictionary α} {key : String} :
    entries.find? key = none ↔ key ∉ entries.map Prod.fst := by
  rw [find?, List.lookup_eq_none_iff]
  constructor
  · rintro other membership
    obtain ⟨entry, inside, rfl⟩ := List.mem_map.mp membership
    simpa using other entry inside
  · rintro missing entry inside
    rw [bne_iff_ne]
    rintro rfl
    exact missing (List.mem_map.mpr ⟨entry, inside, rfl⟩)

theorem perm_insert {entries : Dictionary α} {key : String} (value : α)
    (fresh : key ∉ entries.map Prod.fst) :
    (entries.insert key value).Perm ((key, value) :: entries) := by
  induction entries with
  | nil => exact .refl _
  | cons entry rest ih =>
    obtain ⟨k, v⟩ := entry
    rw [List.map_cons, List.mem_cons, not_or] at fresh
    rw [insert, if_neg fresh.1]
    split
    · exact .refl _
    · exact ((ih fresh.2).cons _).trans (.swap _ _ _)

theorem mem_insert {entries : Dictionary α} {key : String} {value : α} {other : String × α}
    (member : other ∈ entries.insert key value) : other = (key, value) ∨ other ∈ entries := by
  induction entries with
  | nil => exact .inl (List.mem_singleton.mp member)
  | cons entry rest ih =>
    obtain ⟨k, v⟩ := entry
    rw [insert] at member
    split at member
    · exact List.mem_cons.mp member
    split at member
    · exact (List.mem_cons.mp member).imp id (List.mem_cons_of_mem _)
    · rcases List.mem_cons.mp member with rfl | inside
      · exact .inr List.mem_cons_self
      · exact (ih inside).imp id (List.mem_cons_of_mem _)

theorem mem_foldl_insert {entries before : List (String × α)} {other : String × α}
    (member : other ∈ entries.foldl
      (fun dictionary (key, value) => Dictionary.insert key value dictionary) before) :
    other ∈ before ∨ other ∈ entries := by
  induction entries generalizing before with
  | nil => exact .inl member
  | cons entry rest ih =>
    rcases ih member with inside | later
    · exact (mem_insert inside).elim (fun same => .inr (same ▸ List.mem_cons_self)) .inl
    · exact .inr (List.mem_cons_of_mem _ later)

theorem mem_ofList {entries : List (String × α)} {other : String × α}
    (member : other ∈ ofList entries) : other ∈ entries :=
  (mem_foldl_insert member).resolve_left (List.not_mem_nil)

theorem mem_of_find? {entries : Dictionary α} {key : String} {value : α}
    (found : entries.find? key = some value) : (key, value) ∈ entries := by
  obtain ⟨before, after, rfl, -⟩ := List.lookup_eq_some_iff.mp found
  simp

theorem ordered_insert {entries : Dictionary α} (ordered : Ordered entries) (key : String)
    (value : α) : Ordered (entries.insert key value) := by
  induction entries with
  | nil => exact List.pairwise_singleton _ _
  | cons entry rest ih =>
    obtain ⟨k, v⟩ := entry
    obtain ⟨first, later⟩ := List.pairwise_cons.mp ordered
    rw [insert]
    split
    · rename_i smaller
      refine List.pairwise_cons.mpr ⟨fun other membership => ?_, ordered⟩
      rcases List.mem_cons.mp membership with rfl | inside
      · exact smaller
      · exact String.lt_trans smaller (first other inside)
    split
    · rename_i same
      subst same
      exact List.pairwise_cons.mpr ⟨first, later⟩
    · rename_i notSmaller different
      have greater : k < key := by
        rcases Decidable.em (k < key) with greater | notGreater
        · exact greater
        · exact absurd (String.le_antisymm notGreater notSmaller) different
      refine List.pairwise_cons.mpr ⟨fun other membership => ?_, ih later⟩
      rcases mem_insert membership with rfl | inside
      · exact greater
      · exact first other inside

theorem ordered_foldl_insert (entries : List (String × α)) {before : Dictionary α}
    (ordered : Ordered before) :
    Ordered (entries.foldl (fun dictionary (key, value) => dictionary.insert key value) before) := by
  induction entries generalizing before with
  | nil => exact ordered
  | cons entry rest ih => exact ih (ordered_insert ordered entry.1 entry.2)

theorem ordered_ofList (entries : List (String × α)) : Ordered (ofList entries) :=
  ordered_foldl_insert entries .nil

theorem find?_insert_self (entries : Dictionary α) (key : String) (value : α) :
    (entries.insert key value).find? key = some value := by
  induction entries with
  | nil => exact List.lookup_cons_self
  | cons entry rest ih =>
    obtain ⟨k, v⟩ := entry
    rw [insert]
    split
    · exact List.lookup_cons_self
    split
    · exact List.lookup_cons_self
    · rename_i different
      rw [find?, List.lookup_cons, beq_false_of_ne different]
      exact ih

/-- Setting one key leaves the others alone. -/
theorem find?_insert_of_ne (entries : Dictionary α) {key other : String} (value : α)
    (different : other ≠ key) : (entries.insert key value).find? other = entries.find? other := by
  have skip (rest : Dictionary α) : find? other ((key, value) :: rest) = rest.find? other := by
    rw [find?, List.lookup_cons, beq_false_of_ne different]
    rfl
  induction entries with
  | nil => exact skip []
  | cons entry rest ih =>
    obtain ⟨k, v⟩ := entry
    rw [insert]
    split
    · exact skip _
    split
    · rename_i same
      subst same
      rw [skip, find?, find?, List.lookup_cons, beq_false_of_ne different]
    · rw [find?, find?, List.lookup_cons, List.lookup_cons]
      split
      · rfl
      · exact ih

theorem insert_of_find? {entries : Dictionary α} (ordered : Ordered entries) {key : String}
    {value : α} (found : entries.find? key = some value) : entries.insert key value = entries := by
  induction entries with
  | nil => cases found
  | cons entry rest ih =>
    obtain ⟨k, v⟩ := entry
    obtain ⟨first, later⟩ := List.pairwise_cons.mp ordered
    rw [find?, List.lookup_cons] at found
    rw [insert]
    by_cases same : key = k
    · subst same
      rw [beq_self_eq_true] at found
      cases found
      rw [if_neg (String.lt_irrefl key), if_pos rfl]
    · rw [beq_false_of_ne same] at found
      have greater : k < key := first (key, value) (mem_of_find? found)
      rw [if_neg (String.lt_asymm greater), if_neg same, ih later found]

/-- Collecting entries with new and different keys adds them all, in order. -/
theorem foldl_insert_perm (entries before : Dictionary α)
    (distinct : ((before ++ entries).map Prod.fst).Nodup) :
    (entries.foldl (fun dictionary (key, value) => dictionary.insert key value) before).Perm
      (before ++ entries) := by
  induction entries generalizing before with
  | nil => simp
  | cons entry rest ih =>
    obtain ⟨key, value⟩ := entry
    have moved : (before ++ (key, value) :: rest).Perm ((key, value) :: before ++ rest) :=
      List.perm_middle
    have fresh : key ∉ before.map Prod.fst := by
      have apart := (moved.map Prod.fst).nodup_iff.mp distinct
      rw [List.cons_append, List.map_cons, List.nodup_cons, List.map_append, List.mem_append,
        not_or] at apart
      exact apart.1.1
    have added := perm_insert value fresh
    have whole : (before.insert key value ++ rest).Perm (before ++ (key, value) :: rest) :=
      (added.append_right rest).trans moved.symm
    have permuted := ih (before.insert key value) ((whole.map Prod.fst).nodup_iff.mpr distinct)
    exact permuted.trans whole

theorem ofList_perm {entries : List (String × α)} (distinct : (entries.map Prod.fst).Nodup) :
    (ofList entries).Perm entries :=
  foldl_insert_perm entries [] distinct

theorem Ordered.eq_of_perm {entries others : Dictionary α} (ordered : Ordered entries)
    (ordered' : Ordered others) (permuted : entries.Perm others) : entries = others :=
  permuted.eq_of_pairwise (fun _ _ _ _ smaller greater => absurd greater (String.lt_asymm smaller))
    ordered ordered'

theorem ofList_eq_of_perm {entries others : List (String × α)} (permuted : entries.Perm others)
    (distinct : (entries.map Prod.fst).Nodup) : ofList entries = ofList others := by
  have distinct' := (permuted.map Prod.fst).nodup_iff.mp distinct
  exact (ordered_ofList entries).eq_of_perm (ordered_ofList others)
    ((ofList_perm distinct).trans (permuted.trans (ofList_perm distinct').symm))

theorem find?_eq_some_iff {entries : Dictionary α} (ordered : Ordered entries) {key : String}
    {value : α} : entries.find? key = some value ↔ (key, value) ∈ entries := by
  constructor
  · exact mem_of_find?
  · intro member
    induction entries with
    | nil => cases member
    | cons entry rest ih =>
      obtain ⟨first, later⟩ := List.pairwise_cons.mp ordered
      rcases List.mem_cons.mp member with rfl | inside
      · exact List.lookup_cons_self
      · have different : key ≠ entry.1 := by
          intro same
          have smaller := first _ inside
          rw [← same] at smaller
          exact String.lt_irrefl key smaller
        rw [find?, List.lookup_cons, beq_false_of_ne different]
        exact ih later inside

theorem mem_keys_filter {entries : Dictionary α} (ordered : Ordered entries)
    {keep : String × α → Bool} {key : String} :
    key ∈ (entries.filter keep).map Prod.fst ↔
      ∃ value, entries.find? key = some value ∧ keep (key, value) = true := by
  constructor
  · intro member
    obtain ⟨⟨same, value⟩, inside, rfl⟩ := List.mem_map.mp member
    obtain ⟨inside, kept⟩ := List.mem_filter.mp inside
    exact ⟨value, (find?_eq_some_iff ordered).mpr inside, kept⟩
  · intro found
    obtain ⟨value, found, kept⟩ := found
    exact List.mem_map.mpr ⟨(key, value), List.mem_filter.mpr ⟨mem_of_find? found, kept⟩, rfl⟩

theorem keys_filter_eq {β : Type} {entries : Dictionary α} {others : Dictionary β}
    (ordered : Ordered entries) (ordered' : Ordered others) {keep : String × α → Bool}
    {keep' : String × β → Bool}
    (same : ∀ key, (∃ value, entries.find? key = some value ∧ keep (key, value) = true) ↔
      ∃ value, others.find? key = some value ∧ keep' (key, value) = true) :
    (entries.filter keep).map Prod.fst = (others.filter keep').map Prod.fst := by
  have kept : Ordered (entries.filter keep) := List.Pairwise.filter _ ordered
  have kept' : Ordered (others.filter keep') := List.Pairwise.filter _ ordered'
  have permuted := (List.perm_ext_iff_of_nodup kept.nodup kept'.nodup).mpr
    fun key => by rw [mem_keys_filter ordered, mem_keys_filter ordered', same]
  exact permuted.eq_of_pairwise
    (fun _ _ _ _ smaller greater => absurd greater (String.lt_asymm smaller)) kept.keys kept'.keys

theorem find?_ofList (entries : List (String × α)) (key : String) :
    (ofList entries).find? key = entries.reverse.lookup key := by
  rw [ofList]
  induction entries using List.reverseRecOn with
  | nil => rfl
  | append_singleton rest entry inductionHypothesis =>
    obtain ⟨last, value⟩ := entry
    rw [List.foldl_append, List.foldl_cons, List.foldl_nil, List.reverse_concat, List.lookup_cons]
    by_cases same : key = last
    · rw [same, find?_insert_self, beq_self_eq_true]
    · rw [find?_insert_of_ne _ _ same, inductionHypothesis, beq_false_of_ne same]

theorem lookup_filterMap {β : Type} (read : β → Option (String × α)) (key : String)
    (list : List β) :
    (list.filterMap read).lookup key = list.findSome? fun item =>
      (read item).bind fun entry => if entry.1 = key then some entry.2 else none := by
  induction list with
  | nil => rfl
  | cons item rest inductionHypothesis =>
    rw [List.findSome?_cons, List.filterMap_cons]
    cases found : read item with
    | none => exact inductionHypothesis
    | some entry =>
      obtain ⟨other, value⟩ := entry
      dsimp only [Option.bind_some]
      rw [List.lookup_cons]
      by_cases same : other = key
      · rw [same, beq_self_eq_true, if_pos rfl]
      · rw [beq_false_of_ne (Ne.symm same), if_neg same]
        exact inductionHypothesis

end TerraDoc.Dictionary
