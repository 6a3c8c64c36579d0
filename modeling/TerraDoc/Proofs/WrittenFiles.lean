import Mathlib.Data.List.Nodup
import TerraDoc.Proofs.PathWalk

/-!
What writing the documents leaves behind. Each document that is written stands at a place of its
own with its text, the documents are written in order up to the first that cannot be, and
everything else in the tree stays as it was.
-/

namespace TerraDoc.Docs

open Files Files.Node

variable {documents rest : List (List Char × List Char)} {document : List Char × List Char}
  {files before middle after : FileSystem}

def placesOf (files : FileSystem) (documents : List (List Char × List Char)) :
    List (List String) :=
  documents.map fun document => files.destination document.1

theorem placesOf_congr (same : after.here = before.here) :
    placesOf after documents = placesOf before documents := by
  apply List.map_congr_left
  intro document _
  rw [FileSystem.destination, FileSystem.destination, same]

/-- Documents were written, each to its place, and nothing else has changed. -/
structure Wrote (documents : List (List Char × List Char)) (before after : FileSystem) : Prop where
  here : after.here = before.here
  filled : Filled (placesOf before documents) before.root after.root
  texts : ∀ document ∈ documents, after.Finds document.1 (before.destination document.1) ∧
    after.root.at? (before.destination document.1) =
      some (.file (Text.Utf8.encode document.2))

namespace Wrote

theorem nil (files : FileSystem) : Wrote [] files files :=
  ⟨rfl, .refl files.root, nofun⟩

theorem cons (free : before.root.LinkFree) (last : document.1.getLast? ≠ some '/')
    (first : before.write document.1 (Text.Utf8.encode document.2) = .ok middle)
    (later : Wrote rest middle after) (apart : before.destination document.1 ∉ placesOf before rest) :
    Wrote (document :: rest) before after := by
  obtain ⟨filled, here, finds, there⟩ := FileSystem.filled_of_write free last first
  have places : placesOf middle rest = placesOf before rest := placesOf_congr here
  refine ⟨later.here.trans here, ?_, ?_⟩
  · have whole := filled.trans later.filled
    rwa [places] at whole
  · intro other member
    rcases List.mem_cons.mp member with rfl | member
    · have filled' := later.filled
      rw [places] at filled'
      exact ⟨(FileSystem.finds_iff_of_filled filled' later.here).mpr finds,
        (filled'.file_iff apart).mpr there⟩
    · have said := later.texts other member
      rwa [FileSystem.destination, here] at said

end Wrote

/-- Documents with places of their own are written up to the first that cannot be written. -/
theorem writeEach_wrote (free : files.root.LinkFree)
    (last : ∀ document ∈ documents, document.1.getLast? ≠ some '/')
    (distinct : (placesOf files documents).Nodup) :
    ∃ written rest, documents = written ++ rest ∧
      (writeEach documents files).paths = written.map Prod.fst ∧
      Wrote written files (writeEach documents files).files ∧
      (((writeEach documents files).failure = none ∧ rest = []) ∨
        ∃ document later cause, rest = document :: later ∧
          (writeEach documents files).failure = some cause ∧
          (writeEach documents files).files.write document.1 (Text.Utf8.encode document.2) =
            .error cause) := by
  induction documents generalizing files with
  | nil => exact ⟨[], [], rfl, rfl, .nil files, .inl ⟨rfl, rfl⟩⟩
  | cons document rest inductionHypothesis =>
    cases first : files.write document.1 (Text.Utf8.encode document.2) with
    | error cause =>
      rw [writeEach, first]
      exact ⟨[], document :: rest, rfl, rfl, .nil files, .inr ⟨document, rest, cause, rfl, rfl, first⟩⟩
    | ok middle =>
      have here := last document List.mem_cons_self
      obtain ⟨filled, same, -⟩ := FileSystem.filled_of_write free here first
      obtain ⟨apart, distinct⟩ := List.nodup_cons.mp distinct
      obtain ⟨written, remaining, split, paths, wrote, ends⟩ :=
        inductionHypothesis (filled.linkFree free)
          (fun other member => last other (List.mem_cons_of_mem _ member))
          (by rwa [placesOf_congr same])
      rw [writeEach, first]
      refine ⟨document :: written, remaining, by rw [split, List.cons_append], ?_, ?_, ends⟩
      · rw [List.map_cons, ← paths]
      · apply wrote.cons free here first
        intro among
        apply apart
        rw [split]
        exact List.mem_map.mpr (by
          obtain ⟨other, member, same⟩ := List.mem_map.mp among
          exact ⟨other, List.mem_append_left _ member, same⟩)

variable {settings : Settings} {repository : List Char} {catalogue : Catalogue}

theorem path_of_mem_documents (member : document ∈ Docs.documents settings repository catalogue) :
    ∃ folder, document.1 = Path.join folder settings.readmeName.toList := by
  rcases List.mem_cons.mp member with rfl | member
  · exact ⟨repository, rfl⟩
  · obtain ⟨entry, -, rfl⟩ := List.mem_map.mp member
    exact ⟨Path.join repository entry.1.toList, rfl⟩

theorem getLast?_of_mem_documents (name : Path.IsName settings.readmeName.toList) :
    ∀ document ∈ Docs.documents settings repository catalogue,
      document.1.getLast? ≠ some '/' := by
  intro document member
  obtain ⟨folder, same⟩ := path_of_mem_documents member
  rw [same]
  exact Path.getLast?_join folder name

theorem destination_readme (files : FileSystem) (repository : List Char) {folder name : List Char}
    (plain : Path.Plain folder) (ordinary : Path.IsName name) :
    files.destination (Path.join (Path.join repository folder) name) =
      files.destination repository ++ ((folder.splitOn '/').map String.ofList ++
        [String.ofList name]) := by
  rw [FileSystem.destination_join files _ ordinary.plain, FileSystem.destination_join files _ plain,
    ordinary.splitOn_eq, List.append_assoc]
  rfl

theorem ofList_splitOn_injective {first second : List Char}
    (same : (first.splitOn '/').map String.ofList = (second.splitOn '/').map String.ofList) :
    first = second := by
  have pieces : first.splitOn '/' = second.splitOn '/' :=
    List.map_injective_iff.mpr (fun _ _ => String.ofList_injective) same
  calc
    first = ['/'].intercalate (first.splitOn '/') := (List.intercalate_splitOn '/').symm
    _ = ['/'].intercalate (second.splitOn '/') := by rw [pieces]
    _ = second := List.intercalate_splitOn '/'

/-- No two documents have one place. -/
theorem nodup_placesOf_documents (files : FileSystem) (repository : List Char)
    (ordered : Dictionary.Ordered catalogue)
    (plain : ∀ entry ∈ catalogue, Path.Plain entry.1.toList)
    (name : Path.IsName settings.readmeName.toList) :
    (placesOf files (Docs.documents settings repository catalogue)).Nodup := by
  have index : files.destination (Path.join repository settings.readmeName.toList) =
      files.destination repository ++ [settings.readmeName] := by
    rw [FileSystem.destination_join files _ name.plain, name.splitOn_eq, List.map_singleton,
      String.ofList_toList]
  rw [placesOf, Docs.documents, List.map_cons, List.map_map]
  apply List.nodup_cons.mpr
  constructor
  · intro among
    obtain ⟨entry, member, same⟩ := List.mem_map.mp among
    dsimp only [Function.comp_apply] at same
    rw [destination_readme files repository (plain entry member) name, index,
      List.append_right_inj, String.ofList_toList] at same
    have none := List.append_left_eq_self.mp same
    exact List.splitOn_ne_nil '/' entry.1.toList (List.map_eq_nil_iff.mp none)
  · rw [List.Nodup, List.pairwise_map]
    apply ordered.imp_of_mem
    intro first second member member' smaller same
    dsimp only [Function.comp_apply] at same
    rw [destination_readme files repository (plain first member) name,
      destination_readme files repository (plain second member') name, List.append_right_inj,
      List.append_left_inj] at same
    rw [String.toList_inj.mp (ofList_splitOn_injective same)] at smaller
    exact String.lt_irrefl _ smaller

/-- Publishing writes the index and then the README of each module in the order of their folders,
each to a path of its own, up to the first that cannot be written. What is written stands at its
path with its text, and everything else, the document that failed among it, is as before. -/
theorem publish_writes_prefix (repository : List Char) (free : files.root.LinkFree)
    (ordered : Dictionary.Ordered catalogue)
    (plain : ∀ entry ∈ catalogue, Path.Plain entry.1.toList)
    (name : Path.IsName settings.readmeName.toList) :
    let documents := (Path.join repository settings.readmeName.toList, index settings catalogue) ::
      catalogue.map fun entry =>
        (Path.join (Path.join repository entry.1.toList) settings.readmeName.toList,
          readme settings entry.2)
    let publication := publish settings repository catalogue files
    (documents.map Prod.fst).Nodup ∧
    (catalogue.map Prod.fst).Pairwise (fun first second =>
      Text.Utf8.encode first.toList < Text.Utf8.encode second.toList) ∧
    ∃ written rest places, documents = written ++ rest ∧
      publication.paths = written.map Prod.fst ∧
      publication.files.here = files.here ∧ places.Nodup ∧
      List.Forall₂ (fun place document => publication.files.place document.1 = .ok place ∧
        publication.files.read document.1 = .ok (Text.Utf8.encode document.2)) places written ∧
      (∀ place ∉ places,
        (publication.files.root.at? place).map bare = (files.root.at? place).map bare) ∧
      (∀ document ∈ rest,
        (publication.files.read document.1).toOption = (files.read document.1).toOption) ∧
      ((publication.failure = none ∧ rest = []) ∨
        ∃ document later cause, rest = document :: later ∧ publication.failure = some cause ∧
          publication.files.write document.1 (Text.Utf8.encode document.2) = .error cause) := by
  intro documents publication
  have distinct : (placesOf files documents).Nodup :=
    nodup_placesOf_documents files repository ordered plain name
  have last : ∀ document ∈ documents, document.1.getLast? ≠ some '/' :=
    getLast?_of_mem_documents name
  obtain ⟨written, rest, split, paths, wrote, ends⟩ := writeEach_wrote free last distinct
  have apart : (placesOf files written ++ placesOf files rest).Nodup := by
    rwa [placesOf, placesOf, ← List.map_append, ← split]
  obtain ⟨nodup, -, disjoint⟩ := List.nodup_append.mp apart
  refine ⟨?_, ?_, written, rest, placesOf files written, split, paths, wrote.here, nodup, ?_,
    wrote.filled.others, ?_, ends⟩
  · apply List.Nodup.of_map files.destination
    rwa [List.map_map]
  · rw [List.pairwise_map]
    exact ordered.imp fun smaller => (Text.Utf8.encode_lt_iff _ _).mpr smaller
  · rw [placesOf, List.forall₂_map_left_iff, List.forall₂_same]
    intro document member
    obtain ⟨finds, there⟩ := wrote.texts document member
    have free' := wrote.filled.linkFree free
    exact ⟨(FileSystem.place_eq_ok_iff free').mpr ⟨finds, by rw [there]; rfl⟩,
      (FileSystem.read_eq_ok_iff free').mpr ⟨_, finds, there⟩⟩
  · intro document member
    apply FileSystem.read_of_filled free wrote.filled wrote.here
    intro among
    exact disjoint _ among _ (List.mem_map_of_mem member) rfl

/-- Two modules, the second of which has no folder. -/
def lostModule : Catalogue :=
  [("modules/a", ⟨⟨"modules/a", .empty, [], []⟩, []⟩),
    ("modules/b", ⟨⟨"modules/b", .empty, [], []⟩, []⟩)]

theorem linkFree_modulesTree : modulesTree.root.LinkFree := by
  apply linkFree_folder
  rw [List.forall_mem_singleton]
  apply linkFree_folder
  rw [List.forall_mem_singleton]
  apply linkFree_folder
  rw [List.forall_mem_singleton]
  exact linkFree_folder nofun

/-- A module that has no folder leaves the documents that come before its own. -/
theorem publish_writes_prefix_lost :
    modulesTree.root.LinkFree ∧ Dictionary.Ordered lostModule ∧
      (∀ entry ∈ lostModule, Path.Plain entry.1.toList) ∧
      Path.IsName Settings.default.readmeName.toList ∧
      (publish Settings.default "repo".toList lostModule modulesTree).paths =
        ["repo/README.md".toList, "repo/modules/a/README.md".toList] ∧
      (publish Settings.default "repo".toList lostModule modulesTree).files.read
          "repo/README.md".toList =
        .ok (Text.Utf8.encode (index Settings.default lostModule)) ∧
      (publish Settings.default "repo".toList lostModule modulesTree).files.read
          "repo/modules/a/README.md".toList =
        .ok (Text.Utf8.encode (readme Settings.default ⟨⟨"modules/a", .empty, [], []⟩, []⟩)) := by
  have ordered : Dictionary.Ordered lostModule := by
    rw [Dictionary.Ordered, lostModule, List.pairwise_pair]
    decide
  have plain : ∀ entry ∈ lostModule, Path.Plain entry.1.toList := by decide
  have name : Path.IsName Settings.default.readmeName.toList := by decide
  have paths : (publish Settings.default "repo".toList lostModule modulesTree).paths =
      ["repo/README.md".toList, "repo/modules/a/README.md".toList] := by decide +kernel
  obtain ⟨-, -, written, rest, places, split, said, -, -, texts, -⟩ :=
    publish_writes_prefix "repo".toList linkFree_modulesTree ordered plain name
  have two : written.length = 2 := by
    rw [paths] at said
    rw [← List.length_map Prod.fst, ← said]
    rfl
  have both : written = (written ++ rest).take 2 := by rw [← two, List.take_left]
  rw [← split] at both
  rw [both] at texts
  cases texts with
  | cons first texts =>
    cases texts with
    | cons second =>
      exact ⟨linkFree_modulesTree, ordered, plain, name, paths, first.2, second.2⟩

end TerraDoc.Docs
