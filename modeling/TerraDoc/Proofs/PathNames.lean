import TerraDoc.Path
import TerraDoc.Proofs.LineText

namespace TerraDoc

theorem Text.mem_splitOn_of_mem {separator c : Char} {text : List Char} (member : c ∈ text)
    (other : c ≠ separator) : ∃ piece ∈ text.splitOn separator, c ∈ piece := by
  induction text with
  | nil => cases member
  | cons d rest inductionHypothesis =>
    rw [List.splitOn_cons_eq_if_modifyHead]
    obtain ⟨first, more, split⟩ := List.exists_cons_of_ne_nil (List.splitOn_ne_nil separator rest)
    rw [split] at inductionHypothesis ⊢
    rcases List.mem_cons.mp member with rfl | later
    · rw [if_neg (by simpa using other)]
      exact ⟨_, List.mem_cons_self, List.mem_cons_self⟩
    · obtain ⟨piece, inside, within⟩ := inductionHypothesis later
      split
      · exact ⟨piece, List.mem_cons_of_mem _ inside, within⟩
      · rcases List.mem_cons.mp inside with rfl | inside
        · exact ⟨_, List.mem_cons_self, List.mem_cons_of_mem _ within⟩
        · exact ⟨piece, List.mem_cons_of_mem _ inside, within⟩

namespace Path

/-- What a folder can call one of its entries. -/
structure IsName (name : List Char) : Prop where
  nonempty : name ≠ []
  single : '/' ∉ name
  here : name ≠ ['.']
  up : name ≠ ['.', '.']

instance (name : List Char) : Decidable (IsName name) :=
  decidable_of_iff (name ≠ [] ∧ '/' ∉ name ∧ name ≠ ['.'] ∧ name ≠ ['.', '.']) (by
    constructor
    · intro parts
      exact ⟨parts.1, parts.2.1, parts.2.2.1, parts.2.2.2⟩
    · intro ordinary
      exact ⟨ordinary.nonempty, ordinary.single, ordinary.here, ordinary.up⟩)

/-- A path that leads down: it has names, starts from where it is met, and never goes back up. -/
structure Descends (path : List Char) : Prop where
  nonempty : names path ≠ []
  relative : isAbsolute path = false
  down : ['.', '.'] ∉ names path

/-- A path that is spelled by names alone, with one slash between any two. -/
def Plain (path : List Char) : Prop :=
  ∀ name ∈ path.splitOn '/', IsName name

instance (path : List Char) : Decidable (Plain path) :=
  inferInstanceAs (Decidable (∀ name ∈ path.splitOn '/', IsName name))

/-- A path into a folder: it starts like the path of the folder, takes the same names, and from
there it leads down. -/
structure Within (folder path : List Char) : Prop where
  start : isAbsolute path = isAbsolute folder
  below : ∃ further, names path = names folder ++ further ∧ further ≠ [] ∧ ['.', '.'] ∉ further

theorem names_nil : names [] = [] := rfl

theorem splitOn_append (first second : List Char) :
    (first ++ '/' :: second).splitOn '/' = first.splitOn '/' ++ second.splitOn '/' :=
  List.splitOnP_append_cons first second (beq_self_eq_true '/')

theorem names_append (first second : List Char) :
    names (first ++ '/' :: second) = names first ++ names second := by
  rw [names, splitOn_append, List.filter_append]
  rfl

theorem IsName.splitOn_eq {name : List Char} (ordinary : IsName name) :
    name.splitOn '/' = [name] := by
  refine List.splitOnP_eq_singleton fun c inside => ?_
  rw [beq_eq_false_iff_ne]
  rintro rfl
  exact ordinary.single inside

theorem IsName.names_eq {name : List Char} (ordinary : IsName name) : names name = [name] := by
  simp [names, ordinary.splitOn_eq, ordinary.nonempty, ordinary.here]

theorem IsName.descends {name : List Char} (ordinary : IsName name) : Descends name := by
  refine ⟨by simp [ordinary.names_eq], ?_, ?_⟩
  · rw [isAbsolute, decide_eq_false_iff_not]
    intro slash
    obtain ⟨rest, rfl⟩ := List.head?_eq_some_iff.mp slash
    exact ordinary.single List.mem_cons_self
  · rw [ordinary.names_eq, List.mem_singleton]
    exact fun same => ordinary.up same.symm

theorem IsName.plain {name : List Char} (ordinary : IsName name) : Plain name := by
  intro part member
  rw [ordinary.splitOn_eq, List.mem_singleton] at member
  rwa [member]

theorem Plain.names_eq {path : List Char} (plain : Plain path) :
    names path = path.splitOn '/' := by
  rw [names, List.filter_eq_self]
  intro name member
  have ordinary := plain name member
  simp [ordinary.nonempty, ordinary.here]

theorem Plain.nonempty {path : List Char} (plain : Plain path) : path ≠ [] := by
  rintro rfl
  exact (plain [] (by simp)).nonempty rfl

theorem Plain.relative {path : List Char} (plain : Plain path) : isAbsolute path = false := by
  rw [isAbsolute, decide_eq_false_iff_not]
  intro slash
  obtain ⟨rest, rfl⟩ := List.head?_eq_some_iff.mp slash
  rw [Plain, List.splitOn_cons_eq_if_modifyHead, if_pos (beq_self_eq_true '/')] at plain
  exact (plain [] List.mem_cons_self).nonempty rfl

theorem Plain.getLast?_ne {path : List Char} (plain : Plain path) :
    path.getLast? ≠ some '/' := by
  intro slash
  obtain ⟨stem, rfl⟩ := List.getLast?_eq_some_iff.mp slash
  have piece : [] ∈ (stem ++ ['/']).splitOn '/' := by
    rw [splitOn_append]
    exact List.mem_append_right _ (by simp)
  exact (plain [] piece).nonempty rfl

theorem Plain.append {path name : List Char} (plain : Plain path) (ordinary : IsName name) :
    Plain (path ++ '/' :: name) := by
  intro part member
  rw [splitOn_append, ordinary.splitOn_eq, List.mem_append, List.mem_singleton] at member
  rcases member with early | rfl
  · exact plain part early
  · exact ordinary

theorem steps_ne_nil {path : List Char} (nonempty : path ≠ []) : steps path ≠ [] := by
  rw [steps]
  split
  · simp
  · rename_i noSlash
    obtain ⟨stem, last, rfl⟩ := (List.eq_nil_or_concat path).resolve_left nonempty
    have other : last ≠ '/' := by simpa using noSlash
    obtain ⟨piece, inside, within⟩ :=
      Text.mem_splitOn_of_mem (by simp : last ∈ stem.concat last) other
    apply List.ne_nil_of_mem (List.mem_filter.mpr ⟨inside, _⟩)
    simpa using List.ne_nil_of_mem within

theorem names_slash (path : List Char) : names ('/' :: path) = names path :=
  names_append [] path

theorem names_trimWhile (path : List Char) :
    names (Text.trimWhile (· == '/') path) = names path := by
  have front : names (path.dropWhile (· == '/')) = names path := by
    induction path with
    | nil => rfl
    | cons c rest ih =>
      by_cases slash : c = '/'
      · subst slash
        rw [List.dropWhile_cons_of_pos rfl, ih, names_slash]
      · rw [List.dropWhile_cons_of_neg (by simpa using slash)]
  have back (path : List Char) : names (path.rdropWhile (· == '/')) = names path := by
    induction path using List.reverseRecOn with
    | nil => rfl
    | append_singleton rest c ih =>
      by_cases slash : c = '/'
      · subst slash
        rw [List.rdropWhile_concat_pos _ _ _ rfl, ih, names_append, names_nil, List.append_nil]
      · rw [List.rdropWhile_concat_neg _ _ _ (by simpa using slash)]
  exact (back _).trans front

/-- What a path is put behind when it is joined to another. -/
def front (base : List Char) : List Char :=
  if base.isEmpty || base.getLast? = some '/' then base else base ++ ['/']

theorem join_eq (base : List Char) {path : List Char} (relative : isAbsolute path = false) :
    join base path = front base ++ path := by
  rw [isAbsolute, decide_eq_false_iff_not] at relative
  unfold join front
  by_cases empty : base.isEmpty = true
  · simp [List.isEmpty_iff.mp empty]
  · by_cases slash : base.getLast? = some '/' <;> simp [relative, empty, slash]

theorem names_front_append (base path : List Char) :
    names (front base ++ path) = names base ++ names path := by
  unfold front
  split
  · rename_i ends
    rw [Bool.or_eq_true, List.isEmpty_iff, decide_eq_true_iff] at ends
    rcases ends with rfl | slash
    · rfl
    · obtain ⟨stem, rfl⟩ := List.getLast?_eq_some_iff.mp slash
      rw [List.append_assoc, List.singleton_append, names_append, names_append, names_nil,
        List.append_nil]
  · rw [List.append_assoc, List.singleton_append, names_append]

theorem names_join (base : List Char) {path : List Char} (relative : isAbsolute path = false) :
    names (join base path) = names base ++ names path := by
  rw [join_eq base relative, names_front_append]

theorem isAbsolute_append {first : List Char} (nonempty : first ≠ []) (second : List Char) :
    isAbsolute (first ++ second) = isAbsolute first := by
  rw [isAbsolute, isAbsolute, List.head?_append_of_ne_nil first nonempty]

theorem isAbsolute_join (base : List Char) {path : List Char}
    (relative : isAbsolute path = false) : isAbsolute (join base path) = isAbsolute base := by
  rw [join_eq base relative]
  cases base with
  | nil => exact relative
  | cons c rest =>
    unfold front
    split
    · exact isAbsolute_append (List.cons_ne_nil c rest) path
    · rw [List.append_assoc]
      exact isAbsolute_append (List.cons_ne_nil c rest) _

theorem Within.of_join (folder : List Char) {path : List Char} (down : Descends path) :
    Within folder (join folder path) :=
  ⟨isAbsolute_join folder down.relative,
    names path, names_join folder down.relative, down.nonempty, down.down⟩

theorem Within.trans {root folder path : List Char} (outer : Within root folder)
    (inner : Within folder path) : Within root path := by
  obtain ⟨first, same, nonempty, down⟩ := outer.below
  obtain ⟨second, same', -, down'⟩ := inner.below
  refine ⟨inner.start.trans outer.start, first ++ second, ?_, by simp [nonempty], ?_⟩
  · rw [same', same, List.append_assoc]
  · rw [List.mem_append, not_or]
    exact ⟨down, down'⟩

theorem fileName?_join (base : List Char) {name : List Char} (ordinary : IsName name) :
    fileName? (join base name) = some name := by
  rw [fileName?, names_join base ordinary.descends.relative, ordinary.names_eq,
    List.getLast?_append_of_ne_nil _ (List.cons_ne_nil _ _)]
  simp [ordinary.up]

theorem getLast?_join (base : List Char) {name : List Char} (ordinary : IsName name) :
    (join base name).getLast? ≠ some '/' := by
  rw [join_eq base ordinary.descends.relative, List.getLast?_append_of_ne_nil _ ordinary.nonempty]
  intro slash
  exact ordinary.single (List.mem_of_getLast? slash)

theorem join_join (base : List Char) {middle path : List Char} (nonempty : middle ≠ [])
    (relative : isAbsolute middle = false) (last : middle.getLast? ≠ some '/')
    (relative' : isAbsolute path = false) :
    join (join base middle) path = join base (middle ++ '/' :: path) := by
  have whole : isAbsolute (middle ++ '/' :: path) = false := by
    rw [isAbsolute_append nonempty, relative]
  have slash : front (front base ++ middle) = front base ++ (middle ++ ['/']) := by
    have stop : (front base ++ middle).getLast? ≠ some '/' := by
      rwa [List.getLast?_append_of_ne_nil _ nonempty]
    have apart : ¬ ((front base ++ middle).isEmpty || (front base ++ middle).getLast? = some '/') =
        true := by
      rw [Bool.or_eq_true, List.isEmpty_iff, decide_eq_true_iff, not_or]
      exact ⟨by simp [nonempty], stop⟩
    rw [front, if_neg apart, List.append_assoc]
  rw [join_eq base relative, join_eq _ relative', slash, join_eq base whole]
  simp

end Path

end TerraDoc
