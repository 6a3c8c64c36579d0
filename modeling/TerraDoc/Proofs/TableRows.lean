import Mathlib.Data.List.Forall2
import TerraDoc.Docs.Readme

/-!
Reading tables back: whatever stands in the cells of a row, the row is one line, and cut at its
unescaped pipes it gives the cells again, with blanks in place of their line breaks.
-/

namespace TerraDoc.Docs

namespace Markdown

/-- A text with a blank for each of its line breaks: CR LF, CR or LF. -/
def foldBreaks : List Char → List Char
  | [] => []
  | '\r' :: '\n' :: rest => ' ' :: foldBreaks rest
  | c :: rest => (if c = '\r' ∨ c = '\n' then ' ' else c) :: foldBreaks rest

/-- A text with each pipe that stands after a backslash in place of both. -/
def unescapePipes : List Char → List Char
  | [] => []
  | '\\' :: '|' :: rest => '|' :: unescapePipes rest
  | c :: rest => c :: unescapePipes rest

/-- A text cut at the pipes that do not stand directly after a backslash; `escaped` says whether
the text itself stands after one. -/
def cutPipes (escaped : Bool) : List Char → List (List Char)
  | [] => [[]]
  | c :: rest =>
      if c = '|' ∧ escaped = false then [] :: cutPipes false rest
      else (cutPipes (c == '\\') rest).modifyHead (c :: ·)

/-- The pieces of a line are its cells, with one blank on each side of what is between them. -/
inductive Padded : List (List Char) → List (List Char) → Prop where
  | single (cell : List Char) : Padded [cell] [cell]
  | more (cell : List Char) {next piece : List Char} {cells pieces : List (List Char)}
      (later : Padded (next :: cells) (piece :: pieces)) :
      Padded (cell :: next :: cells) ((cell ++ [' ']) :: (' ' :: piece) :: pieces)

/-- A text is one line, and read as a row of so many columns it gives these cells. -/
structure IsRow (columns : Nat) (cells : List (List Char)) (text : List Char) : Prop where
  unbroken : ∀ c ∈ text, c ≠ '\n' ∧ c ≠ '\r'
  width : (cutPipes false text).length = columns
  parts : ∃ padded, Padded padded (cutPipes false text) ∧
    padded.map unescapePipes = cells.map foldBreaks

/-- A text is a table: a line of headers, a rule, one line for each row in turn, and an empty
line. -/
def IsTable (headers : List (List Char)) (rows : List (List (List Char))) (text : List Char) :
    Prop :=
  ∃ lines, List.Forall₂ (IsRow headers.length) rows lines ∧
    text = (('|' :: (row headers ++ ['|'])) :: row (headers.map fun _ => ['-', '-', '-']) ::
      (lines ++ [[]])).flatMap line

def escapePipe (c : Char) : List Char :=
  if c = '|' then ['\\', '|'] else [c]

/-- Line breaks and pipes of a cell do not get in each other's way. -/
theorem escapeCell_eq (text : List Char) :
    escapeCell text = (foldBreaks text).flatMap escapePipe := by
  fun_induction foldBreaks text with
  | case1 => rfl
  | case2 rest inductionHypothesis =>
    rw [escapeCell, inductionHypothesis]
    rfl
  | case3 c rest single inductionHypothesis =>
    rw [List.flatMap_cons, ← inductionHypothesis]
    by_cases pipe : c = '|'
    · subst pipe
      rfl
    by_cases back : c = '\r'
    · subst back
      cases rest with
      | nil => rfl
      | cons d rest =>
        have other : d ≠ '\n' := fun feed => single rest rfl (by rw [feed])
        rw [escapeCell]
        · rfl
        · exact fun rest feed => other (List.cons.inj feed).1
    by_cases feed : c = '\n'
    · subst feed
      rfl
    · rw [escapeCell.eq_def]
      split <;> simp_all [escapePipe]

theorem unescapePipes_cons (c : Char) {rest : List Char} (apart : rest.head? ≠ some '|') :
    unescapePipes (c :: rest) = c :: unescapePipes rest := by
  rw [unescapePipes.eq_def]
  split <;> simp_all

theorem escaped_head (text : List Char) : (text.flatMap escapePipe).head? ≠ some '|' := by
  cases text with
  | nil => simp
  | cons c rest =>
    by_cases pipe : c = '|'
    · simp [escapePipe, pipe]
    · simp [escapePipe, pipe]

theorem unescapePipes_flatMap (text : List Char) :
    unescapePipes (text.flatMap escapePipe) = text := by
  induction text with
  | nil => rfl
  | cons c rest inductionHypothesis =>
    rw [List.flatMap_cons]
    by_cases pipe : c = '|'
    · rw [escapePipe, if_pos pipe, pipe, List.cons_append, List.singleton_append, unescapePipes,
        inductionHypothesis]
    · rw [escapePipe, if_neg pipe, List.singleton_append,
        unescapePipes_cons c (escaped_head rest), inductionHypothesis]

theorem cutPipes_of_head (escaped : Bool) {text : List Char} (apart : text.head? ≠ some '|') :
    cutPipes escaped text = cutPipes false text := by
  cases text with
  | nil => rfl
  | cons c rest =>
    have other : c ≠ '|' := fun pipe => apart (congrArg some pipe)
    simp [cutPipes, other]

theorem cutPipes_cons {c : Char} (other : c ≠ '|') (escaped : Bool) (rest : List Char) :
    cutPipes escaped (c :: rest) = (cutPipes (c == '\\') rest).modifyHead (c :: ·) := by
  rw [cutPipes, if_neg (not_and_of_not_left _ other)]

theorem cutPipes_escaped (escaped : Bool) (rest : List Char) :
    cutPipes escaped ('\\' :: '|' :: rest) = (cutPipes false rest).modifyHead ('\\' :: '|' :: ·) := by
  rw [cutPipes_cons (by decide)]
  show (cutPipes true ('|' :: rest)).modifyHead _ = _
  rw [cutPipes, if_neg (by decide), List.modifyHead_modifyHead]
  rfl

theorem cutPipes_separator (escaped : Bool) (rest : List Char) :
    cutPipes escaped (' ' :: '|' :: ' ' :: rest) =
      [' '] :: (cutPipes false rest).modifyHead (' ' :: ·) := by
  rw [cutPipes_cons (by decide)]
  show (cutPipes false ('|' :: ' ' :: rest)).modifyHead _ = _
  rw [cutPipes, if_pos ⟨rfl, rfl⟩, cutPipes_cons (by decide)]
  rfl

theorem cutPipes_flatMap (escaped : Bool) (text rest : List Char)
    (apart : rest.head? ≠ some '|') :
    cutPipes escaped (text.flatMap escapePipe ++ rest) =
      (cutPipes false rest).modifyHead (text.flatMap escapePipe ++ ·) := by
  induction text generalizing escaped with
  | nil =>
    rw [List.flatMap_nil, List.nil_append, cutPipes_of_head escaped apart]
    exact (congrFun List.modifyHead_id _).symm
  | cons c text inductionHypothesis =>
    rw [List.flatMap_cons]
    by_cases pipe : c = '|'
    · rw [escapePipe, if_pos pipe, List.cons_append, List.singleton_append, List.cons_append,
        List.cons_append, cutPipes_escaped, inductionHypothesis, List.modifyHead_modifyHead]
      rfl
    · rw [escapePipe, if_neg pipe, List.singleton_append, List.cons_append, cutPipes_cons pipe,
        inductionHypothesis, List.modifyHead_modifyHead]
      rfl

theorem Padded.length_eq {cells pieces : List (List Char)} (padded : Padded cells pieces) :
    pieces.length = cells.length := by
  induction padded with
  | single => rfl
  | more cell later inductionHypothesis => simpa using inductionHypothesis

theorem row_cons (cell next : List Char) (cells : List (List Char)) :
    row (cell :: next :: cells) = cell ++ (' ' :: '|' :: ' ' :: row (next :: cells)) := by
  simp [row, separator, List.intercalate_cons_cons]

/-- Cut at its unescaped pipes, a row gives its escaped cells and their padding. -/
theorem padded_row (cells : List (List Char)) (nonempty : cells ≠ []) :
    Padded (cells.map fun cell => cell.flatMap escapePipe)
      (cutPipes false (row (cells.map fun cell => cell.flatMap escapePipe))) := by
  induction cells with
  | nil => exact absurd rfl nonempty
  | cons cell cells inductionHypothesis =>
    cases cells with
    | nil =>
      have whole := cutPipes_flatMap false cell [] (by simp)
      rw [List.append_nil, cutPipes, List.modifyHead_cons, List.append_nil] at whole
      rw [List.map_cons, List.map_nil, row, List.intercalate_singleton, whole]
      exact Padded.single _
    | cons next cells =>
      have later := inductionHypothesis (List.cons_ne_nil next cells)
      rw [List.map_cons] at later
      rw [List.map_cons, List.map_cons, row_cons, cutPipes_flatMap false cell _ (by simp),
        cutPipes_separator]
      cases pieces : cutPipes false (row (next.flatMap escapePipe ::
          cells.map fun cell => cell.flatMap escapePipe)) with
      | nil =>
        rw [pieces] at later
        exact absurd later.length_eq (by simp)
      | cons piece pieces' =>
        rw [pieces] at later
        exact later.more (cell.flatMap escapePipe)

theorem mem_row {cells : List (List Char)} {c : Char} (member : c ∈ row cells) :
    c = ' ' ∨ c = '|' ∨ ∃ cell ∈ cells, c ∈ cell := by
  induction cells with
  | nil => cases member
  | cons cell cells inductionHypothesis =>
    cases cells with
    | nil =>
      rw [row, List.intercalate_singleton] at member
      exact .inr (.inr ⟨cell, List.mem_cons_self, member⟩)
    | cons next cells =>
      rw [row_cons, List.mem_append, List.mem_cons, List.mem_cons, List.mem_cons] at member
      rcases member with inside | blank | pipe | blank | later
      · exact .inr (.inr ⟨cell, List.mem_cons_self, inside⟩)
      · exact .inl blank
      · exact .inr (.inl pipe)
      · exact .inl blank
      · rcases inductionHypothesis later with blank | pipe | ⟨other, member, inside⟩
        · exact .inl blank
        · exact .inr (.inl pipe)
        · exact .inr (.inr ⟨other, List.mem_cons_of_mem cell member, inside⟩)

theorem isRow_row (cells : List (List Char)) (nonempty : cells ≠ []) :
    IsRow cells.length cells (row (cells.map escapeCell)) := by
  have folded : cells.map escapeCell =
      (cells.map foldBreaks).map fun cell => cell.flatMap escapePipe := by
    rw [List.map_map]
    exact List.map_congr_left fun cell _ => escapeCell_eq cell
  have padded := padded_row (cells.map foldBreaks) (by simpa using nonempty)
  rw [← folded] at padded
  refine ⟨?_, ?_, _, padded, ?_⟩
  · intro c member
    rcases mem_row member with rfl | rfl | ⟨cell, inside, member⟩
    · decide
    · decide
    · obtain ⟨text, -, rfl⟩ := List.mem_map.mp inside
      exact escapeCell_no_break text c member
  · rw [padded.length_eq, List.length_map]
  · rw [folded, List.map_map]
    exact List.map_id'' (fun cell => unescapePipes_flatMap cell) _

theorem isTable_table {headers : List (List Char)} {rows : List (List (List Char))}
    (nonempty : headers ≠ []) (width : ∀ cells ∈ rows, cells.length = headers.length) :
    IsTable headers rows (table headers rows) := by
  refine ⟨rows.map fun cells => row (cells.map escapeCell), ?_, ?_⟩
  · rw [List.forall₂_map_right_iff, List.forall₂_same]
    intro cells member
    have filled : cells ≠ [] := by
      intro empty
      have none := width cells member
      rw [empty] at none
      exact nonempty (List.length_eq_zero_iff.mp none.symm)
    have isRow := isRow_row cells filled
    rw [width cells member] at isRow
    exact isRow
  · simp [table, List.flatMap_def, Function.comp_def]

end Markdown

open Markdown

/-- A text is a section that holds one table. -/
def IsTableSection (title : String) (headers : List String) (rows : List (List (List Char)))
    (text : List Char) : Prop :=
  ∃ table, text = heading2 title.toList ++ table ∧ IsTable (headers.map String.toList) rows table

theorem isTableSection_of {title : String} {headers : List String}
    {rows : List (List (List Char))} (nonempty : headers ≠ [])
    (width : ∀ cells ∈ rows, cells.length = headers.length) :
    IsTableSection title headers rows
      (heading2 title.toList ++ table (headers.map String.toList) rows) :=
  ⟨_, rfl, isTable_table (by simpa using nonempty) (by simpa using width)⟩

theorem releases_eq (documented : DocumentedModule) :
    documented.releases = documented.commits.filter (·.tag ≠ "") := by
  apply List.filter_congr
  intro commit _
  rw [Git.Commit.isTagged, Bool.eq_iff_iff]
  simp

theorem releases_section (documented : DocumentedModule)
    (some : documented.commits.filter (·.tag ≠ "") ≠ []) :
    IsTableSection "Releases" ["Tag", "Message", "Commit"]
      ((documented.commits.filter (·.tag ≠ "")).map releaseRow) (releases documented) := by
  have shown : documented.releases.isEmpty ≠ true := by
    rw [releases_eq, ne_eq, List.isEmpty_iff]
    exact some
  rw [releases, if_neg shown, releases_eq]
  apply isTableSection_of (by decide)
  intro cells member
  obtain ⟨commit, -, rfl⟩ := List.mem_map.mp member
  rfl

theorem inputs_section (record : Module.Record) :
    IsTableSection "Variables" ["Name", "Type", "Description", "Default Value"]
      (record.inputs.map fun v =>
        [code v.name.toList,
          code (if v.declaredType = "" then "not specified".toList else v.declaredType.toList),
          v.description.toList, code v.defaultValue.toList]) (inputs record) := by
  have rows : variableRow = fun v =>
      [code v.name.toList,
        code (if v.declaredType = "" then "not specified".toList else v.declaredType.toList),
        v.description.toList, code v.defaultValue.toList] := by
    funext v
    simp only [variableRow, String.isEmpty_iff]
  rw [← rows]
  apply isTableSection_of (by decide)
  intro cells member
  obtain ⟨v, -, rfl⟩ := List.mem_map.mp member
  rfl

theorem outputs_section (record : Module.Record) (some : record.outputs ≠ []) :
    IsTableSection "Outputs" ["Name", "Description"] (record.outputs.map outputRow)
      (outputs record) := by
  rw [outputs, if_neg (by simpa using some)]
  apply isTableSection_of (by decide)
  intro cells member
  obtain ⟨output, -, rfl⟩ := List.mem_map.mp member
  rfl

theorem filterMap_indexRow? (settings : Settings) (catalogue : Catalogue) :
    catalogue.filterMap (indexRow? settings) =
      (catalogue.filter (·.2.module.header.title ≠ "")).map fun entry =>
        [entry.2.module.header.title.toList, entry.2.module.header.description.toList,
          link "more details".toList (below entry.1.toList settings.readmeName.toList)] := by
  induction catalogue with
  | nil => rfl
  | cons entry rest inductionHypothesis =>
    by_cases untitled : entry.2.module.header.title = ""
    · have none : indexRow? settings entry = none := if_pos (by simpa using untitled)
      rw [List.filterMap_cons_none none, inductionHypothesis,
        List.filter_cons_of_neg (by simpa using untitled)]
    · have some : indexRow? settings entry = some _ := if_neg (by simpa using untitled)
      rw [List.filterMap_cons_some some, inductionHypothesis,
        List.filter_cons_of_pos (by simpa using untitled), List.map_cons]

theorem modules_section (settings : Settings) (catalogue : Catalogue) :
    IsTableSection "Modules" ["Module", "Description", "Link"]
      ((catalogue.filter (·.2.module.header.title ≠ "")).map fun entry =>
        [entry.2.module.header.title.toList, entry.2.module.header.description.toList,
          link "more details".toList (below entry.1.toList settings.readmeName.toList)])
      (heading2 "Modules".toList ++ table ["Module".toList, "Description".toList, "Link".toList]
        (catalogue.filterMap (indexRow? settings))) := by
  rw [filterMap_indexRow?]
  apply isTableSection_of (by decide)
  intro cells member
  obtain ⟨entry, -, rfl⟩ := List.mem_map.mp member
  rfl

end TerraDoc.Docs
