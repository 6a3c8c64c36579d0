import Mathlib.Data.List.Forall2

namespace TerraDoc

section Pointwise

variable {α β : Type} {gives gives' : β → α → Prop} {list list' : List β} {results : List α}

theorem forall₂_congr_left
    (same : List.Forall₂ (fun b b' => ∀ a, gives b a ↔ gives' b' a) list list') :
    List.Forall₂ gives list results ↔ List.Forall₂ gives' list' results := by
  induction same generalizing results with
  | nil => simp only [List.forall₂_nil_left_iff]
  | cons first _ ih => simp only [List.forall₂_cons_left_iff, first, ih]

theorem exists_of_mem_right (each : List.Forall₂ gives list results) {a : α}
    (member : a ∈ results) : ∃ b ∈ list, gives b a := by
  induction each with
  | nil => cases member
  | @cons b first rest _ here _ ih =>
    rcases List.mem_cons.mp member with rfl | later
    · exact ⟨b, List.mem_cons_self, here⟩
    · obtain ⟨other, inside, given⟩ := ih later
      exact ⟨other, List.mem_cons_of_mem b inside, given⟩

theorem exists_of_mem_left (each : List.Forall₂ gives list results) {b : β}
    (member : b ∈ list) : ∃ a ∈ results, gives b a := by
  obtain ⟨a, inside, given⟩ := exists_of_mem_right each.flip member
  exact ⟨a, inside, given⟩

end Pointwise

end TerraDoc

namespace Except

open TerraDoc

variable {ε ε' α β : Type}

theorem bind_eq_ok {x : Except ε α} {f : α → Except ε β} {b : β} :
    (x >>= f) = .ok b ↔ ∃ a, x = .ok a ∧ f a = .ok b := by
  cases x <;> simp [bind, Except.bind]

theorem ok_bind (a : α) (f : α → Except ε β) : (.ok a >>= f) = f a :=
  rfl

theorem bind_eq_error {x : Except ε α} {f : α → Except ε β} {cause : ε} :
    (x >>= f) = .error cause ↔ x = .error cause ∨ ∃ a, x = .ok a ∧ f a = .error cause := by
  cases x <;> simp [bind, Except.bind]

theorem map_eq_ok {x : Except ε α} {f : α → β} {b : β} :
    x.map f = .ok b ↔ ∃ a, x = .ok a ∧ f a = b := by
  cases x <;> simp [Except.map]

theorem map_eq_error {x : Except ε α} {f : α → β} {cause : ε} :
    x.map f = .error cause ↔ x = .error cause := by
  cases x <;> simp [Except.map]

theorem mapError_eq_error {x : Except ε α} {f : ε → ε'} {cause : ε'} :
    x.mapError f = .error cause ↔ ∃ inner, x = .error inner ∧ f inner = cause := by
  cases x with
  | ok a =>
    constructor
    · intro same
      cases same
    · intro fails
      obtain ⟨_, none, -⟩ := fails
      cases none
  | error inner =>
    constructor
    · intro same
      cases same
      exact ⟨inner, rfl, rfl⟩
    · intro fails
      obtain ⟨_, here, same⟩ := fails
      cases here
      exact congrArg Except.error same

theorem mapError_eq_ok {x : Except ε α} {f : ε → ε'} {a : α} :
    x.mapError f = .ok a ↔ x = .ok a := by
  cases x with
  | ok b =>
    constructor
    · rintro ⟨⟩
      rfl
    · rintro ⟨⟩
      rfl
  | error cause =>
    constructor
    · rintro ⟨⟩
    · rintro ⟨⟩

theorem pure_eq_ok {a b : α} : (pure a : Except ε α) = .ok b ↔ a = b := by
  simp [pure, Except.pure]

theorem toOption_eq_some {x : Except ε α} {a : α} : x.toOption = some a ↔ x = .ok a := by
  cases x <;> simp [Except.toOption]

/-- Two chains that end alike come to the same if what they start from does, and their ends keep
that. -/
theorem map_bind_congr {γ δ : Type} {x y : Except ε α} {f : α → β} {g h : α → γ} {k : γ → δ}
    (same : x.map f = y.map f) (later : ∀ a b, f a = f b → k (g a) = k (h b)) :
    (x >>= fun a => pure (g a)).map k = (y >>= fun b => pure (h b)).map k := by
  cases x with
  | error cause =>
    cases y with
    | error => cases same; rfl
    | ok => cases same
  | ok a =>
    cases y with
    | error => cases same
    | ok b => exact congrArg Except.ok (later a b (Except.ok.inj same))

theorem mapError_map (x : Except ε α) (f : α → β) (g : ε → ε') :
    (x.map f).mapError g = (x.mapError g).map f := by
  cases x <;> rfl

theorem mapError_mapError {ε'' : Type} (x : Except ε α) (f : ε → ε') (g : ε' → ε'') :
    (x.mapError f).mapError g = x.mapError fun cause => g (f cause) := by
  cases x <;> rfl

/-- What two results have in common when their errors are mapped, they have in common when all
errors become the same. -/
theorem mapError_congr {ε'' : Type} {x y : Except ε α} {f : ε → ε'} {g h : ε → ε''}
    (same : x.mapError f = y.mapError f) (const : ∀ first second, g first = h second) :
    x.mapError g = y.mapError h := by
  cases x with
  | ok a =>
    cases mapError_eq_ok.mp same.symm
    rfl
  | error cause =>
    obtain ⟨other, rfl, -⟩ := mapError_eq_error.mp same.symm
    exact congrArg Except.error (const cause other)

theorem mapError_bind_congr {x y : Except ε α} {f g : α → Except ε β} {h : ε → ε'}
    (first : x.mapError h = y.mapError h) (later : ∀ a, (f a).mapError h = (g a).mapError h) :
    (x >>= f).mapError h = (y >>= g).mapError h := by
  cases x with
  | ok a =>
    cases mapError_eq_ok.mp first.symm
    exact later a
  | error cause =>
    obtain ⟨other, rfl, same⟩ := mapError_eq_error.mp first.symm
    exact congrArg Except.error same.symm

theorem mapM_eq_ok_iff {f : α → Except ε β} {list : List α} {results : List β} :
    list.mapM f = .ok results ↔ List.Forall₂ (fun a b => f a = .ok b) list results := by
  induction list generalizing results with
  | nil => rw [List.mapM_nil, pure_eq_ok, List.forall₂_nil_left_iff, eq_comm]
  | cons a rest inductionHypothesis =>
    rw [List.mapM_cons, List.forall₂_cons_left_iff, bind_eq_ok]
    constructor
    · intro succeeds
      obtain ⟨b, here, succeeds⟩ := succeeds
      obtain ⟨others, later, same⟩ := bind_eq_ok.mp succeeds
      exact ⟨b, others, here, inductionHypothesis.mp later, (pure_eq_ok.mp same).symm⟩
    · intro each
      obtain ⟨b, others, here, later, same⟩ := each
      refine ⟨b, here, bind_eq_ok.mpr ⟨others, inductionHypothesis.mpr later, ?_⟩⟩
      rw [pure_eq_ok, same]

theorem mem_of_mapM_eq_ok {f : α → Except ε β} {list : List α} {results : List β}
    (same : list.mapM f = .ok results) {b : β} (member : b ∈ results) :
    ∃ a ∈ list, f a = .ok b :=
  exists_of_mem_right (mapM_eq_ok_iff.mp same) member

theorem mapM_iff_of_zip {f : α → Except ε β} {list list' : List α}
    (length : list.length = list'.length)
    (each : ∀ pair ∈ list.zip list', ∀ b, f pair.1 = .ok b ↔ f pair.2 = .ok b)
    (results : List β) : list.mapM f = .ok results ↔ list'.mapM f = .ok results := by
  rw [mapM_eq_ok_iff, mapM_eq_ok_iff]
  exact forall₂_congr_left (List.forall₂_iff_zip.mpr
    ⟨length, fun {a a'} member => each (a, a') member⟩)

theorem exists_ok_iff {x : Except ε α} : (∃ a, x = .ok a) ↔ ∀ cause, x ≠ .error cause := by
  cases x <;> simp

theorem error_of_not_ok {x : Except ε α} (none : ∀ a, x ≠ .ok a) : ∃ cause, x = .error cause := by
  cases x with
  | ok a => exact absurd rfl (none a)
  | error cause => exact ⟨cause, rfl⟩

theorem both_or_neither {x : Except ε α} {y : Except ε' α} (same : ∀ a, x = .ok a ↔ y = .ok a) :
    (∃ a, x = .ok a ∧ y = .ok a) ∨ ((∃ cause, x = .error cause) ∧ ∃ cause, y = .error cause) := by
  cases x with
  | ok a => exact .inl ⟨a, rfl, (same a).mp rfl⟩
  | error cause =>
    exact .inr ⟨⟨cause, rfl⟩, error_of_not_ok fun a found => nomatch (same a).mpr found⟩

end Except

theorem Option.exists_of_any_any {α β : Type} {x : Option α} {f : α → Option β} {p : β → Bool}
    (found : x.any (fun a => (f a).any p) = true) :
    ∃ a b, x = some a ∧ f a = some b ∧ p b = true := by
  obtain ⟨a, first, found⟩ := (Option.any_eq_true _ _).mp found
  obtain ⟨b, second, good⟩ := (Option.any_eq_true _ _).mp found
  exact ⟨a, b, first, second, good⟩

theorem Option.mapM_eq_some_iff {α β : Type} {f : α → Option β} {list : List α}
    {results : List β} :
    list.mapM f = some results ↔ List.Forall₂ (fun a b => f a = some b) list results := by
  induction list generalizing results with
  | nil => simp [eq_comm, List.forall₂_nil_left_iff]
  | cons a rest inductionHypothesis =>
    simp only [List.mapM_cons, Option.bind_eq_bind, Option.bind_eq_some_iff, Option.pure_def,
      Option.some.injEq, inductionHypothesis, List.forall₂_cons_left_iff]
    constructor
    · rintro ⟨b, here, others, later, rfl⟩
      exact ⟨b, others, here, later, rfl⟩
    · rintro ⟨b, others, here, later, rfl⟩
      exact ⟨b, here, others, later, rfl⟩

theorem Option.mapM_map_eq_some {α β γ : Type} {f : α → β} {g : β → Option γ} {h : α → γ}
    {list : List α} (each : ∀ a ∈ list, g (f a) = some (h a)) :
    (list.map f).mapM g = some (list.map h) := by
  rw [Option.mapM_eq_some_iff, List.forall₂_map_left_iff, List.forall₂_map_right_iff,
    List.forall₂_same]
  exact each

theorem Option.mem_of_mapM_eq_some {α β : Type} {f : α → Option β} {list : List α}
    {results : List β} (same : list.mapM f = some results) {b : β} (member : b ∈ results) :
    ∃ a ∈ list, f a = some b :=
  TerraDoc.exists_of_mem_right (Option.mapM_eq_some_iff.mp same) member
