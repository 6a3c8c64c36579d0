import TerraDoc.Proofs.PathWalk

namespace TerraDoc.Files

open Node

/-- What becomes of a step in a tree. -/
inductive Turn where
  /-- There is no folder to take the step in. -/
  | blocked
  | missing (above : List String) (name : String)
  | onto (place : List String)
  /-- The step meets a link. -/
  | along (met : List String) (start : List String) (target : List Char)

/-- What becomes of a step to an entry, or to the name of a missing one. -/
def entryTurn (above : List String) (name : String) : Option Node → Turn
  | some (.link target) => .along (above ++ [name]) (startOf above target) target
  | some _ => .onto (above ++ [name])
  | none => .missing above name

def turn (root : Node) (place : List String) (step : List Char) : Turn :=
  match root.at? place with
  | some (.folder _) =>
      if step = ['.'] then .onto place
      else if step = ['.', '.'] then .onto place.dropLast
      else entryTurn place (String.ofList step) (root.at? (place ++ [String.ofList step]))
  | _ => .blocked

/-- The place that a step looks at. -/
def Turn.met : Turn → List (List String)
  | blocked => []
  | missing above name => [above ++ [name]]
  | onto place => [place]
  | along met _ _ => [met]

/-- The places that a walk looks at. `follow` says what comes after a link. -/
def sightsWith (root : Node) (follow : List String → List (List Char) → List (List String))
    (place : List String) : List (List Char) → List (List String)
  | [] => [place]
  | step :: rest =>
      place :: ((turn root place step).met ++
        match turn root place step with
        | .onto next => sightsWith root follow next rest
        | .along _ start target => follow start (Path.steps target ++ rest)
        | _ => [])

/-- The places that a walk looks at while it follows at most so many links. -/
def sights (root : Node) : Nat → List String → List (List Char) → List (List String)
  | 0 => sightsWith root fun _ _ => []
  | links + 1 => sightsWith root (sights root links)

/-- In two trees the same stands at a place, apart from what a folder there holds. -/
def AlikeAt (before after : Node) (place : List String) : Prop :=
  (after.at? place).map bare = (before.at? place).map bare

/-- Go on from the end of a walk. -/
def Spot.walkOn (root : Node) (links : Nat) (steps : List (List Char)) :
    Spot → Except FileError Spot
  | present place => walk root links place steps
  | absent _ _ => .error .notFound

variable {root before after : Node} {place found : List String} {name : String}
  {step : List Char} {rest steps more : List (List Char)} {links : Nat}
  {follow follow' : List String → List (List Char) → Except FileError Spot}
  {sees : List String → List (List Char) → List (List String)}

namespace AlikeAt

theorem none_iff (alike : AlikeAt before after place) :
    after.at? place = none ↔ before.at? place = none := by
  rw [← Option.map_eq_none_iff (f := bare), alike, Option.map_eq_none_iff]

theorem file_iff (alike : AlikeAt before after place) {content : List UInt8} :
    after.at? place = some (.file content) ↔ before.at? place = some (.file content) := by
  have by_bare (node : Node) : node.at? place = some (.file content) ↔
      (node.at? place).map bare = some (.file content) := by
    simp [Option.map_eq_some_iff, bare_eq_file]
  rw [by_bare, by_bare, alike]

theorem link_iff (alike : AlikeAt before after place) {target : List Char} :
    after.at? place = some (.link target) ↔ before.at? place = some (.link target) := by
  have by_bare (node : Node) : node.at? place = some (.link target) ↔
      (node.at? place).map bare = some (.link target) := by
    simp [Option.map_eq_some_iff, bare_eq_link]
  rw [by_bare, by_bare, alike]

theorem folder_iff (alike : AlikeAt before after place) :
    after.HasFolder place ↔ before.HasFolder place := by
  have by_bare (node : Node) : node.HasFolder place ↔
      (node.at? place).map bare = some (.folder []) := by
    rw [HasFolder, Option.map_eq_some_iff]
    simp only [bare_eq_folder]
    constructor
    · intro folder
      obtain ⟨entries, here⟩ := folder
      exact ⟨_, here, entries, rfl⟩
    · intro parts
      obtain ⟨_, here, entries, rfl⟩ := parts
      exact ⟨entries, here⟩
  rw [by_bare, by_bare, alike]

theorem entryTurn_eq (alike : AlikeAt before after (place ++ [name])) :
    entryTurn place name (after.at? (place ++ [name])) =
      entryTurn place name (before.at? (place ++ [name])) := by
  cases there : before.at? (place ++ [name]) with
  | none => rw [alike.none_iff.mpr there]
  | some node =>
    cases node with
    | file content => rw [alike.file_iff.mpr there]
    | link target => rw [alike.link_iff.mpr there]
    | folder entries =>
      obtain ⟨entries', there'⟩ := alike.folder_iff.mpr ⟨entries, there⟩
      rw [there']
      rfl

end AlikeAt

theorem turn_of_folder (inside : root.HasFolder place) :
    turn root place step =
      if step = ['.'] then .onto place
      else if step = ['.', '.'] then .onto place.dropLast
      else entryTurn place (String.ofList step) (root.at? (place ++ [String.ofList step])) := by
  obtain ⟨entries, here⟩ := inside
  rw [turn, here]

theorem turn_of_no_folder (outside : ¬ root.HasFolder place) : turn root place step = .blocked := by
  rw [turn]
  split
  · rename_i entries here
    exact absurd ⟨entries, here⟩ outside
  · rfl

theorem walkWith_turn : walkWith root follow place (step :: rest) =
    match turn root place step with
    | .blocked => .error .notFolder
    | .missing above name => if rest.isEmpty then .ok (.absent above name) else .error .notFound
    | .onto next => walkWith root follow next rest
    | .along _ start target => follow start (Path.steps target ++ rest) := by
  by_cases inside : root.HasFolder place
  · rw [turn_of_folder inside]
    obtain ⟨entries, here⟩ := inside
    rw [walkWith, here]
    by_cases dot : step = ['.']
    · simp only [if_pos dot]
    by_cases up : step = ['.', '.']
    · simp only [if_neg dot, if_pos up]
    simp only [if_neg dot, if_neg up, find?_of_folder here]
    cases root.at? (place ++ [String.ofList step]) with
    | none => rfl
    | some node => cases node <;> rfl
  · rw [turn_of_no_folder inside, walkWith_cons_of_no_folder inside]

theorem turn_congr (here : AlikeAt before after place)
    (alike : ∀ seen ∈ (turn before place step).met, AlikeAt before after seen) :
    turn after place step = turn before place step := by
  by_cases inside : before.HasFolder place
  · rw [turn_of_folder inside] at alike ⊢
    rw [turn_of_folder (here.folder_iff.mpr inside)]
    by_cases dot : step = ['.']
    · rw [if_pos dot, if_pos dot]
    by_cases up : step = ['.', '.']
    · rw [if_neg dot, if_neg dot, if_pos up, if_pos up]
    simp only [if_neg dot, if_neg up] at alike ⊢
    have there : AlikeAt before after (place ++ [String.ofList step]) := by
      apply alike
      rcases before.at? (place ++ [String.ofList step]) with _ | _ | _ | _ <;>
        exact List.mem_singleton_self _
    exact there.entryTurn_eq
  · rw [turn_of_no_folder inside, turn_of_no_folder (here.folder_iff.not.mpr inside)]

/-- Where a walk arrives is among the places that it looks at. -/
theorem mem_sightsWith_of_walkWith
    (later : ∀ place steps, follow place steps = .ok (.present found) → found ∈ sees place steps)
    (walked : walkWith root follow place steps = .ok (.present found)) :
    found ∈ sightsWith root sees place steps := by
  induction steps generalizing place with
  | nil =>
    cases walked
    exact List.mem_singleton_self _
  | cons step rest inductionHypothesis =>
    rw [walkWith_turn] at walked
    rw [sightsWith]
    apply List.mem_cons_of_mem
    apply List.mem_append_right
    cases turned : turn root place step with
    | blocked =>
      rw [turned] at walked
      cases walked
    | missing above name =>
      rw [turned] at walked
      dsimp only at walked
      split at walked <;> cases walked
    | onto next =>
      rw [turned] at walked
      exact inductionHypothesis walked
    | along met start target =>
      rw [turned] at walked
      exact later _ _ walked

theorem mem_sights_of_walk (walked : walk root links place steps = .ok (.present found)) :
    found ∈ sights root links place steps := by
  induction links generalizing place steps with
  | zero =>
    rw [walk] at walked
    refine mem_sightsWith_of_walkWith ?_ walked
    intro _ _ none
    cases none
  | succ links inductionHypothesis =>
    exact mem_sightsWith_of_walkWith (fun _ _ => inductionHypothesis) walked

theorem walkWith_congr
    (later : ∀ place steps, (∀ seen ∈ sees place steps, AlikeAt before after seen) →
      follow' place steps = follow place steps)
    (alike : ∀ seen ∈ sightsWith before sees place steps, AlikeAt before after seen) :
    walkWith after follow' place steps = walkWith before follow place steps := by
  induction steps generalizing place with
  | nil => rfl
  | cons step rest inductionHypothesis =>
    rw [sightsWith, List.forall_mem_cons, List.forall_mem_append] at alike
    obtain ⟨here, met, alike⟩ := alike
    rw [walkWith_turn, walkWith_turn, turn_congr here met]
    cases turned : turn before place step with
    | blocked | missing => rfl
    | onto next =>
      rw [turned] at alike
      exact inductionHypothesis alike
    | along met start target =>
      rw [turned] at alike
      exact later _ _ alike

theorem walk_congr
    (alike : ∀ seen ∈ sights before links place steps, AlikeAt before after seen) :
    walk after links place steps = walk before links place steps := by
  induction links generalizing place steps with
  | zero => exact walkWith_congr (fun _ _ _ => rfl) alike
  | succ links inductionHypothesis =>
    exact walkWith_congr (fun _ _ => inductionHypothesis) alike

theorem walkWith_append (links : Nat) (self : walkWith root follow = walk root links)
    (later : ∀ place steps, ∃ left, ∀ more, more ≠ [] →
      follow place (steps ++ more) = follow place steps >>= Spot.walkOn root left more)
    (place : List String) (steps : List (List Char)) :
    ∃ left, ∀ more, more ≠ [] → walkWith root follow place (steps ++ more) =
      walkWith root follow place steps >>= Spot.walkOn root left more := by
  induction steps generalizing place with
  | nil => exact ⟨links, fun more _ => congrFun (congrFun self place) more⟩
  | cons step rest inductionHypothesis =>
    simp only [List.cons_append, walkWith_turn]
    cases turn root place step with
    | blocked => exact ⟨0, fun _ _ => rfl⟩
    | missing above name =>
      refine ⟨0, fun more nonempty => ?_⟩
      have later : (rest ++ more).isEmpty = false := by simp [nonempty]
      dsimp only
      rw [later]
      cases rest.isEmpty <;> rfl
    | onto next => exact inductionHypothesis next
    | along met start target =>
      simp only [← List.append_assoc]
      exact later _ _

theorem walk_append (root : Node) (links : Nat) (place : List String) (steps : List (List Char)) :
    ∃ left, ∀ more, more ≠ [] → walk root links place (steps ++ more) =
      walk root links place steps >>= Spot.walkOn root left more := by
  induction links generalizing place steps with
  | zero => exact walkWith_append 0 rfl (fun _ _ => ⟨0, fun _ _ => rfl⟩) place steps
  | succ links inductionHypothesis =>
    exact walkWith_append (links + 1) rfl inductionHypothesis place steps

theorem walk_of_onto {next : List String} (turned : turn root place step = .onto next) :
    walk root links place [step] = .ok (.present next) := by
  cases links with
  | zero | succ => rw [walk, walkWith_turn, turned]; rfl

theorem walk_of_blocked (turned : turn root place step = .blocked) :
    walk root links place [step] = .error .notFolder := by
  cases links with
  | zero | succ => rw [walk, walkWith_turn, turned]

/-- The steps along a path without the one for a slash at its end. -/
def pieces (path : List Char) : List (List Char) :=
  (path.splitOn '/').filter (!·.isEmpty)

theorem steps_eq_pieces (path : List Char) :
    Path.steps path = pieces path ++ if path.getLast? = some '/' then [['.']] else [] := by
  rw [Path.steps, pieces]
  split
  · rfl
  · rw [List.append_nil]

theorem pieces_append (first second : List Char) :
    pieces (first ++ '/' :: second) = pieces first ++ pieces second := by
  rw [pieces, Path.splitOn_append, List.filter_append]
  rfl

theorem pieces_front_append (base path : List Char) :
    pieces (Path.front base ++ path) = pieces base ++ pieces path := by
  unfold Path.front
  split
  · rename_i ends
    rw [Bool.or_eq_true, List.isEmpty_iff, decide_eq_true_iff] at ends
    rcases ends with rfl | slash
    · rfl
    · obtain ⟨stem, rfl⟩ := List.getLast?_eq_some_iff.mp slash
      have nothing : pieces [] = [] := rfl
      rw [List.append_assoc, List.singleton_append, pieces_append, pieces_append, nothing,
        List.append_nil]
  · rw [List.append_assoc, List.singleton_append, pieces_append]

theorem steps_join (base : List Char) {name : List Char} (ordinary : Path.IsName name) :
    Path.steps (Path.join base name) = pieces base ++ [name] := by
  have single : pieces name = [name] := by
    simp [pieces, ordinary.splitOn_eq, ordinary.nonempty]
  rw [steps_eq_pieces, if_neg (Path.getLast?_join base ordinary), List.append_nil,
    Path.join_eq base ordinary.descends.relative, pieces_front_append, single]

/-- A slash at the end of a path leads to the folder that is there without it. -/
theorem walk_pieces {path : List Char}
    (walked : walk root links place (Path.steps path) = .ok (.present found)) :
    walk root links place (pieces path) = .ok (.present found) := by
  rw [steps_eq_pieces] at walked
  split at walked
  · obtain ⟨left, onward⟩ := walk_append root links place (pieces path)
    rw [onward _ (List.cons_ne_nil _ _)] at walked
    obtain ⟨spot, first, last⟩ := Except.bind_eq_ok.mp walked
    cases spot with
    | absent => cases last
    | present middle =>
      rw [Spot.walkOn] at last
      by_cases inside : root.HasFolder middle
      · have stays : turn root middle ['.'] = .onto middle := by
          rw [turn_of_folder inside, if_pos rfl]
        rw [walk_of_onto stays] at last
        rw [first, last]
      · rw [walk_of_blocked (turn_of_no_folder inside)] at last
        cases last
  · rwa [List.append_nil] at walked

theorem file_not_link (content : List UInt8) (target : List Char) :
    Node.file content ≠ .link target := by
  intro same
  cases same

theorem folder_not_link (entries : List (String × Node)) (target : List Char) :
    Node.folder entries ≠ .link target := by
  intro same
  cases same

theorem turn_of_entry {node : Node} (ordinary : Path.IsName name.toList)
    (there : root.at? (place ++ [name]) = some node) (noLink : ∀ target, node ≠ .link target) :
    turn root place name.toList = .onto (place ++ [name]) := by
  have inside : root.HasFolder place := hasFolder_of_isSome (by rw [there]; rfl)
  rw [turn_of_folder inside, if_neg ordinary.here, if_neg ordinary.up, String.ofList_toList, there]
  cases node with
  | file | folder => rfl
  | link target => exact absurd rfl (noLink target)

namespace FileSystem

variable {files : FileSystem} {path : List Char}

theorem place_eq_ok_iff_walk : files.place path = .ok place ↔ path ≠ [] ∧ '\x00' ∉ path ∧
    walk files.root linkLimit (startOf files.here path) (Path.steps path) =
      .ok (.present place) := by
  rw [FileSystem.place, Except.bind_eq_ok]
  constructor
  · intro parts
    obtain ⟨spot, found, same⟩ := parts
    obtain ⟨usable, checked, walked⟩ := Except.bind_eq_ok.mp found
    obtain ⟨rfl, nonempty, clean⟩ := checked_eq_ok_iff.mp checked
    cases spot with
    | absent => cases same
    | present there =>
      cases same
      exact ⟨nonempty, clean, walked⟩
  · intro parts
    obtain ⟨nonempty, clean, walked⟩ := parts
    exact ⟨.present place, Except.bind_eq_ok.mpr
      ⟨path, checked_eq_ok_iff.mpr ⟨rfl, nonempty, clean⟩, walked⟩, rfl⟩

theorem startOf_join (files : FileSystem) (path : List Char) {name : List Char}
    (ordinary : Path.IsName name) :
    startOf files.here (Path.join path name) = startOf files.here path := by
  rw [startOf, startOf, Path.isAbsolute_join path ordinary.descends.relative]

theorem place_join {node : Node} (here : files.place path = .ok place)
    (ordinary : Path.IsName name.toList) (there : files.root.at? (place ++ [name]) = some node)
    (noLink : ∀ target, node ≠ .link target) (clean : '\x00' ∉ name.toList) :
    files.place (Path.join path name.toList) = .ok (place ++ [name]) := by
  obtain ⟨nonempty, clean', walked⟩ := place_eq_ok_iff_walk.mp here
  obtain ⟨left, onward⟩ :=
    walk_append files.root linkLimit (startOf files.here path) (pieces path)
  have joined := Path.join_eq path ordinary.descends.relative
  refine place_eq_ok_iff_walk.mpr ⟨?_, ?_, ?_⟩
  · rw [joined]
    exact List.append_ne_nil_of_right_ne_nil _ ordinary.nonempty
  · rw [joined, List.mem_append, not_or]
    refine ⟨fun inside => ?_, clean⟩
    unfold Path.front at inside
    split at inside
    · exact clean' inside
    · exact (List.mem_append.mp inside).elim clean' (by decide)
  · rw [startOf_join files path ordinary, steps_join path ordinary,
      onward _ (List.cons_ne_nil _ _), walk_pieces walked]
    exact walk_of_onto (turn_of_entry ordinary there noLink)

theorem node_join {node : Node} (here : files.place path = .ok place)
    (ordinary : Path.IsName name.toList) (there : files.root.at? (place ++ [name]) = some node)
    (noLink : ∀ target, node ≠ .link target) :
    files.node (Path.join path name.toList) =
      if '\x00' ∈ name.toList then .error .nulInPath else .ok node := by
  split
  · rename_i nul
    have inside : (Path.join path name.toList).contains '\x00' = true := by
      rw [Path.join_eq path ordinary.descends.relative]
      simp [nul]
    rw [FileSystem.node, FileSystem.place, FileSystem.spot, checked, if_pos inside]
    rfl
  · rename_i clean
    rw [FileSystem.node, place_join here ordinary there noLink clean, Except.ok_bind, there]
    rfl

end FileSystem

end TerraDoc.Files
