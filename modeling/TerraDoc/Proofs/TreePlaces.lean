import TerraDoc.Proofs.ScanOrder

namespace TerraDoc.Files.Node

open Dictionary

/-- A node by itself, without what a folder holds. -/
def bare : Node → Node
  | folder _ => folder []
  | node => node

/-- A tree in which no place holds a symbolic link. -/
def LinkFree (node : Node) : Prop :=
  ∀ place target, node.at? place ≠ some (link target)

/-- A folder stands at a place. -/
def HasFolder (node : Node) (place : List String) : Prop :=
  ∃ entries, node.at? place = some (folder entries)

/-- At a place stands a file, or nothing. -/
def IsFree (node : Node) (place : List String) : Prop :=
  ∀ found, node.at? place = some found → found.isFile = true

mutual

/-- Whether two trees are the same. -/
def decideEq : (first second : Node) → Decidable (first = second)
  | file content, file content' => decidable_of_iff (content = content') (by simp)
  | folder entries, folder entries' =>
      have := decideEqEntries entries entries'
      decidable_of_iff (entries = entries') (by simp)
  | link target, link target' => decidable_of_iff (target = target') (by simp)
  | file _, folder _ | file _, link _ | folder _, file _ | folder _, link _ | link _, file _
  | link _, folder _ => isFalse nofun

def decideEqEntries : (first second : List (String × Node)) → Decidable (first = second)
  | [], [] => isTrue rfl
  | [], _ :: _ | _ :: _, [] => isFalse nofun
  | (name, node) :: rest, (name', node') :: rest' =>
      have := decideEq node node'
      have := decideEqEntries rest rest'
      decidable_of_iff (name = name' ∧ node = node' ∧ rest = rest') (by simp [and_assoc])

end

instance : DecidableEq Node := decideEq

instance : DecidableEq FileSystem := fun first second =>
  decidable_of_iff
    (first.root = second.root ∧ first.here = second.here ∧ first.user = second.user) (by
      cases first
      cases second
      simp)

variable {node root : Node} {place other : List String} {name : String}

theorem at?_cons (node : Node) (name : String) (rest : List String) :
    node.at? (name :: rest) = (node.entries.find? name).bind fun child => child.at? rest :=
  rfl

theorem at?_singleton (node : Node) (name : String) :
    node.at? [name] = node.entries.find? name := by
  rw [at?_cons]
  cases node.entries.find? name with
  | none => rfl
  | some child => exact at?_nil child

theorem at?_append (node : Node) (first second : List String) :
    node.at? (first ++ second) = (node.at? first).bind fun inner => inner.at? second := by
  induction first generalizing node with
  | nil => simp
  | cons name rest inductionHypothesis =>
    rw [List.cons_append, at?_cons, at?_cons, Option.bind_assoc]
    congr 1
    funext child
    exact inductionHypothesis child

theorem at?_of_isFile (file : node.isFile = true) (name : String) (rest : List String) :
    node.at? (name :: rest) = none := by
  cases node with
  | file => rfl
  | folder | link => cases file

theorem hasFolder_of_isSome (there : (node.at? (place ++ [name])).isSome) :
    node.HasFolder place := by
  rw [at?_append] at there
  obtain ⟨found, inside⟩ := Option.isSome_iff_exists.mp there
  obtain ⟨above, here, inside⟩ := Option.bind_eq_some_iff.mp inside
  cases above with
  | folder entries => exact ⟨entries, here⟩
  | file | link => cases inside

theorem bare_eq_file {content : List UInt8} : node.bare = file content ↔ node = file content := by
  cases node <;> simp [bare]

theorem bare_eq_link {target : List Char} : node.bare = link target ↔ node = link target := by
  cases node <;> simp [bare]

theorem bare_eq_folder : node.bare = folder [] ↔ ∃ entries, node = folder entries := by
  cases node <;> simp [bare]

/-- Nodes that are alike are the same, unless they are folders. -/
theorem eq_or_folders {other : Node} (same : other.bare = node.bare) :
    other = node ∨ ∃ entries entries', node = folder entries ∧ other = folder entries' := by
  cases node with
  | file content => exact .inl (bare_eq_file.mp same)
  | link target => exact .inl (bare_eq_link.mp same)
  | folder entries =>
    obtain ⟨entries', rfl⟩ := bare_eq_folder.mp same
    exact .inr ⟨entries, entries', rfl, rfl⟩

theorem linkFree_file (content : List UInt8) : (file content).LinkFree := by
  intro place target linked
  cases place with
  | nil =>
    rw [at?_nil] at linked
    cases linked
  | cons name rest => cases linked

theorem linkFree_folder {entries : List (String × Node)}
    (each : ∀ entry ∈ entries, entry.2.LinkFree) : (folder entries).LinkFree := by
  intro place target linked
  cases place with
  | nil =>
    rw [at?_nil] at linked
    cases linked
  | cons name rest =>
    obtain ⟨child, found, inside⟩ := Option.bind_eq_some_iff.mp linked
    exact each _ (mem_of_find? found) rest target inside

theorem put_nil (new node : Node) : new.put [] node = new := by
  rw [put]

theorem put_cons (new node : Node) (name : String) (rest : List String) :
    new.put (name :: rest) node =
      folder (node.entries.insert name
        (new.put rest ((node.entries.find? name).getD (folder [])))) := by
  rw [put]

theorem at?_put_cons_self (new node : Node) (name : String) (rest more : List String) :
    (new.put (name :: rest) node).at? (name :: more) =
      (new.put rest ((node.entries.find? name).getD (folder []))).at? more := by
  rw [put_cons, at?_cons, entries, find?_insert_self, Option.bind_some]

theorem at?_put_cons_of_ne (new node : Node) {name key : String} (rest more : List String)
    (different : key ≠ name) :
    (new.put (name :: rest) node).at? (key :: more) = node.at? (key :: more) := by
  rw [put_cons, at?_cons, at?_cons, entries, find?_insert_of_ne _ _ different]

theorem at?_put_self (new node : Node) (place : List String) :
    (new.put place node).at? place = some new := by
  induction place generalizing node with
  | nil => rw [put_nil, at?_nil]
  | cons name rest inductionHypothesis =>
    rw [at?_put_cons_self]
    exact inductionHypothesis _

/-- A file that is put into a folder changes no other place. -/
theorem bare_at?_put {new : Node} (file : new.isFile = true) {above : List String}
    (inside : root.HasFolder above) (free : root.IsFree (above ++ [name]))
    (different : other ≠ above ++ [name]) :
    ((new.put (above ++ [name]) root).at? other).map bare = (root.at? other).map bare := by
  induction above generalizing root other with
  | nil =>
    obtain ⟨entries, same⟩ := inside
    rw [at?_nil] at same
    cases same
    cases other with
    | nil => rfl
    | cons key more =>
      by_cases here : key = name
      · subst here
        obtain ⟨child, rest, rfl⟩ : ∃ child rest, more = child :: rest :=
          List.exists_cons_of_ne_nil fun none => different (by rw [none]; rfl)
        rw [List.nil_append, at?_put_cons_self, put_nil, at?_of_isFile file, at?_cons]
        cases found : (folder entries).entries.find? key with
        | none => rfl
        | some old =>
          rw [List.nil_append, IsFree, at?_singleton] at free
          rw [Option.bind_some, at?_of_isFile (free old found)]
      · rw [List.nil_append, at?_put_cons_of_ne _ _ _ _ here]
  | cons first above inductionHypothesis =>
    obtain ⟨entries, inside⟩ := inside
    obtain ⟨child, found, within⟩ := Option.bind_eq_some_iff.mp inside
    cases other with
    | nil =>
      cases root with
      | folder => rfl
      | file | link => cases found
    | cons key more =>
      rw [List.cons_append]
      by_cases here : key = first
      · subst here
        rw [at?_put_cons_self, at?_cons, found, Option.getD_some, Option.bind_some]
        apply inductionHypothesis ⟨entries, within⟩
        · intro old there
          exact free old (by rw [List.cons_append, at?_cons, found]; exact there)
        · intro same
          exact different (by rw [same, List.cons_append])
      · rw [at?_put_cons_of_ne _ _ _ _ here]

theorem put_of_at? {new : Node} (orderly : root.Orderly) (there : root.at? place = some new) :
    new.put place root = root := by
  induction place generalizing root with
  | nil =>
    rw [at?_nil] at there
    cases there
    rw [put_nil]
  | cons name rest inductionHypothesis =>
    rw [at?_cons] at there
    obtain ⟨child, found, there⟩ := Option.bind_eq_some_iff.mp there
    obtain ⟨ordered, each⟩ := orderly.entries
    rw [put_cons, found, Option.getD_some,
      inductionHypothesis (each _ (mem_of_find? found)) there, insert_of_find? ordered found]
    cases root with
    | folder => rfl
    | file | link => cases found

theorem Orderly.put {new : Node} (orderly : root.Orderly) (orderly' : new.Orderly)
    (place : List String) : (new.put place root).Orderly := by
  induction place generalizing root with
  | nil => rwa [put_nil]
  | cons name rest inductionHypothesis =>
    obtain ⟨ordered, each⟩ := orderly.entries
    rw [put_cons]
    apply Orderly.folder (ordered_insert ordered _ _)
    intro entry member
    rcases mem_insert member with rfl | old
    · apply inductionHypothesis
      cases found : root.entries.find? name with
      | none => exact .folder .nil nofun
      | some child => exact each _ (mem_of_find? found)
    · exact each entry old

/-- Files were written at some places of a tree, over files or where nothing was, and no other
place has changed. -/
structure Filled (places : List (List String)) (before after : Node) : Prop where
  others : ∀ place ∉ places, (after.at? place).map bare = (before.at? place).map bare
  files : ∀ place ∈ places, before.IsFree place ∧ ∃ content, after.at? place = some (file content)

variable {before middle after : Node} {places later : List (List String)}

namespace Filled

theorem refl (node : Node) : Filled [] node node :=
  ⟨fun _ _ => rfl, nofun⟩

theorem put {content : List UInt8} {above : List String} (inside : root.HasFolder above)
    (free : root.IsFree (above ++ [name])) :
    Filled [above ++ [name]] root ((file content).put (above ++ [name]) root) := by
  constructor
  · intro other apart
    exact bare_at?_put rfl inside free fun same => apart (List.mem_singleton.mpr same)
  · intro place member
    rw [List.mem_singleton.mp member]
    exact ⟨free, content, at?_put_self _ _ _⟩

theorem file_iff (filled : Filled places before after) {content : List UInt8}
    (apart : place ∉ places) :
    after.at? place = some (file content) ↔ before.at? place = some (file content) := by
  have same := filled.others place apart
  constructor
  · intro there
    rw [there] at same
    obtain ⟨old, found, shape⟩ := Option.map_eq_some_iff.mp same.symm
    rw [found, bare_eq_file.mp shape]
  · intro there
    rw [there] at same
    obtain ⟨new, found, shape⟩ := Option.map_eq_some_iff.mp same
    rw [found, bare_eq_file.mp shape]

theorem folder_iff (filled : Filled places before after) :
    after.HasFolder place ↔ before.HasFolder place := by
  by_cases written : place ∈ places
  · obtain ⟨free, content, there⟩ := filled.files place written
    constructor
    · intro inside
      obtain ⟨entries, inside⟩ := inside
      cases there.symm.trans inside
    · intro inside
      obtain ⟨entries, inside⟩ := inside
      cases free _ inside
  · have same := filled.others place written
    constructor
    · intro inside
      obtain ⟨entries, inside⟩ := inside
      rw [inside] at same
      obtain ⟨old, found, shape⟩ := Option.map_eq_some_iff.mp same.symm
      obtain ⟨entries, rfl⟩ := bare_eq_folder.mp shape
      exact ⟨entries, found⟩
    · intro inside
      obtain ⟨entries, inside⟩ := inside
      rw [inside] at same
      obtain ⟨new, found, shape⟩ := Option.map_eq_some_iff.mp same
      obtain ⟨entries, rfl⟩ := bare_eq_folder.mp shape
      exact ⟨entries, found⟩

theorem linkFree (filled : Filled places before after) (free : before.LinkFree) :
    after.LinkFree := by
  intro place target linked
  by_cases written : place ∈ places
  · obtain ⟨-, content, there⟩ := filled.files place written
    cases there.symm.trans linked
  · have same := filled.others place written
    rw [linked] at same
    obtain ⟨old, found, shape⟩ := Option.map_eq_some_iff.mp same.symm
    rw [bare_eq_link.mp shape] at found
    exact free place target found

theorem isSome (filled : Filled places before after) (there : (before.at? place).isSome) :
    (after.at? place).isSome := by
  by_cases written : place ∈ places
  · obtain ⟨-, content, found⟩ := filled.files place written
    rw [found]
    rfl
  · have same := congrArg Option.isSome (filled.others place written)
    rw [Option.isSome_map, Option.isSome_map] at same
    rwa [same]

theorem trans (first : Filled places before middle) (second : Filled later middle after) :
    Filled (places ++ later) before after := by
  constructor
  · intro place apart
    rw [List.mem_append, not_or] at apart
    exact (second.others place apart.2).trans (first.others place apart.1)
  · intro place member
    constructor
    · by_cases early : place ∈ places
      · exact (first.files place early).1
      · intro found there
        have same := first.others place early
        rw [there] at same
        obtain ⟨old, there', shape⟩ := Option.map_eq_some_iff.mp same
        have flat := (second.files place ((List.mem_append.mp member).resolve_left early)).1 old there'
        cases old with
        | file content => rw [bare_eq_file.mp shape.symm]; rfl
        | folder | link => cases flat
    · by_cases late : place ∈ later
      · exact (second.files place late).2
      · obtain ⟨-, content, there⟩ :=
          first.files place ((List.mem_append.mp member).resolve_right late)
        exact ⟨content, (second.file_iff late).mpr there⟩

end Filled

end TerraDoc.Files.Node
