import TerraDoc.Proofs.HeaderText

/-!
Headers as comments. A header that is found stands in one comment of the source, from the opening on
its first line to the end on its last line, unless its lists hold the end of a comment.
-/

namespace TerraDoc.Module.Header

open Text

/-- A text that holds the end of a comment. -/
def EndsComment (text : List Char) : Prop :=
  "*/".toList <:+: text

namespace EndsComment

theorem append_cons_iff {separator : Char} (apart : separator ∉ "*/".toList)
    (first rest : List Char) :
    EndsComment (first ++ separator :: rest) ↔ EndsComment first ∨ EndsComment rest :=
  infix_append_cons_iff (by decide) apart first rest

theorem not_of_clear {text : List Char} (clear : '*' ∉ text) : ¬ EndsComment text :=
  fun ends => clear (ends.subset (by decide))

theorem not_of_blank {text : List Char} (blank : ∀ c ∈ text, isBlank c = true) :
    ¬ EndsComment text :=
  not_of_clear fun member => absurd (blank _ member) (by decide)

theorem trimEnd_iff (text : List Char) : EndsComment (trimEnd text) ↔ EndsComment text :=
  infix_trimEndWhile (by decide) ['*'] text

theorem flatten_append_iff {pieces : List (List Char)}
    (fed : ∀ piece ∈ pieces, piece.getLast? = some '\n') (rest : List Char) :
    EndsComment (pieces.flatten ++ rest) ↔
      (∃ piece ∈ pieces, EndsComment piece) ∨ EndsComment rest := by
  induction pieces with
  | nil => simp
  | cons piece pieces inductionHypothesis =>
    obtain ⟨line, rfl⟩ := List.getLast?_eq_some_iff.mp (fed piece List.mem_cons_self)
    have alone : EndsComment (line ++ ['\n']) ↔ EndsComment line := by
      rw [append_cons_iff (by decide)]
      exact or_iff_left (not_of_blank (by simp))
    have later := inductionHypothesis fun other member => fed other (.tail _ member)
    rw [List.flatten_cons, List.append_assoc, List.append_assoc, List.singleton_append,
      append_cons_iff (by decide), later, ← or_assoc]
    simp [alone]

theorem intercalate_iff (pieces : List (List Char)) :
    EndsComment ([','].intercalate pieces) ↔ ∃ piece ∈ pieces, EndsComment piece := by
  induction pieces with
  | nil => simpa using @not_of_blank [] (by simp)
  | cons piece pieces inductionHypothesis =>
    cases pieces with
    | nil => simp
    | cons other pieces =>
      rw [List.intercalate_cons_cons, List.append_assoc, List.singleton_append,
        append_cons_iff (by decide), inductionHypothesis]
      simp

theorem items_iff (text : List Char) :
    (∃ item ∈ items text, EndsComment item.toList) ↔ EndsComment text := by
  have pieces := intercalate_iff (text.splitOn ',')
  rw [List.intercalate_splitOn] at pieces
  rw [pieces, items]
  have trimmed (piece : List Char) :
      EndsComment (trimWhile isItemBlank piece) ↔ EndsComment piece :=
    infix_trimWhile (by decide) (by decide) [] piece
  simp [trimmed]

theorem mayGive_iff {name : String} {list : Option (List Char)} {lines : List (List Char)}
    (named : '*' ∉ name.toList) (may : MayGive name list lines) :
    (∃ line ∈ lines, EndsComment line) ↔
      ∃ item ∈ list.elim [] items, EndsComment item.toList := by
  cases may with
  | absent => simp
  | given gives =>
    simp only [Option.elim_some, items_iff, List.mem_singleton, exists_eq_left]
    exact (infix_of_gives named gives).symm

end EndsComment

/-- A list, if it is there, with an item that holds the end of a comment. -/
def ListsEnd (list : Option (List Char)) : Prop :=
  ∃ item ∈ list.elim [] items, EndsComment item.toList

/-- Between the first and the last line of a header a comment ends exactly if an item of a list ends
one. -/
theorem Spells.between {found : Lines} {block : List (List Char)} (spells : Spells found block) :
    ∃ middle last, block = "/*".toList :: (middle ++ [last]) ∧ trim last = "*/".toList ∧
      ((∃ line ∈ middle, EndsComment line) ↔
        ListsEnd found.partners ∨ ListsEnd found.dependencies) := by
  cases spells with
  | @lines title description first second last partners dependencies third fourth titled word
      described inside beside below closing =>
    have untitled : ¬ EndsComment first := fun ends =>
      EndsComment.not_of_clear (fun member => absurd (word _ member) (by decide))
        ((infix_of_gives (by decide) titled).mpr ends)
    have undescribed : ¬ EndsComment second := inside
    refine ⟨first :: second :: (third ++ fourth), last, by simp, closing, ?_⟩
    rw [ListsEnd, ListsEnd, ← EndsComment.mayGive_iff (by decide) beside,
      ← EndsComment.mayGive_iff (by decide) below]
    simp [untitled, undescribed, or_and_right, exists_or]

/-- The lines of a header as they stand in a source, from the opening of a comment to the end of
one. -/
theorem Spells.comment {found : Lines} {pieces : List (List Char)}
    (spells : Spells found (pieces.map trimEnd))
    (fed : ∀ piece ∈ pieces.dropLast, piece.getLast? = some '\n') :
    ∃ inner after, pieces.flatten = "/*".toList ++ (inner ++ ("*/".toList ++ after)) ∧
      (∀ c ∈ after, isBlank c = true) ∧
      (EndsComment inner ↔ ListsEnd found.partners ∨ ListsEnd found.dependencies) := by
  obtain ⟨middle, final, lines, closing, between⟩ := spells.between
  obtain ⟨opening, rest, rfl, opens, trimmed⟩ := List.map_eq_cons_iff.mp lines
  obtain ⟨body, ending, rfl, rfl, single⟩ := List.map_eq_append_iff.mp trimmed
  obtain ⟨last, rfl, rfl⟩ := List.map_eq_singleton_iff.mp single
  rw [trim, trimEnd, trimWhile_trimEndWhile, ← trim] at closing
  obtain ⟨gap, split, blank⟩ := trimEndWhile_split isBlank opening
  rw [← trimEnd, opens] at split
  obtain ⟨lead, after, closes, before, behind⟩ := trimWhile_split isBlank last
  rw [← trim, closing] at closes
  have whole : (opening :: (body ++ [last])).dropLast = opening :: body := by
    rw [← List.cons_append, List.dropLast_concat]
  rw [whole] at fed
  have gapFed : gap.getLast? = some '\n' := by
    have ends := fed opening List.mem_cons_self
    rw [split, List.getLast?_append] at ends
    cases shape : gap.getLast? with
    | none =>
      rw [shape] at ends
      cases ends
    | some c =>
      rw [shape] at ends
      exact ends
  have gapsFed : ∀ piece ∈ gap :: body, piece.getLast? = some '\n' := by
    intro piece member
    rcases List.mem_cons.mp member with rfl | later
    · exact gapFed
    · exact fed piece (.tail _ later)
  refine ⟨(gap :: body).flatten ++ lead, after, by simp [split, closes], behind, ?_⟩
  rw [EndsComment.flatten_append_iff gapsFed, or_iff_left (EndsComment.not_of_blank before),
    ← between]
  simp [EndsComment.not_of_blank blank, EndsComment.trimEnd_iff]

theorem Spells.not_endsComment {found : Lines} {block : List (List Char)}
    (spells : Spells found block) :
    ¬ EndsComment found.title ∧ ¬ EndsComment found.description := by
  cases spells with
  | lines titled word described inside =>
    refine ⟨EndsComment.not_of_clear fun member => absurd (word _ member) (by decide), ?_⟩
    exact fun ends => inside ((infix_of_gives (by decide) described).mp ends)

theorem eq_of_ofLines {found : Lines} {header : Header} (read : ofLines found = .ok header) :
    header = ⟨String.ofList found.title, String.ofList found.description,
      found.partners.elim [] items, found.dependencies.elim [] items⟩ := by
  unfold ofLines at read
  split at read
  · cases read
  · split at read
    · cases read
    · exact (Except.ok.inj read).symm

theorem exists_first_of_extract {source : List Char} {header : Header}
    (read : extract source = .ok header) (full : header ≠ .empty) :
    ∃ i found block, First (linesOf source) i found block ∧ ofLines found = .ok header := by
  by_cases nothing : ∀ i found block, ¬ Stands (linesOf source) i found block
  · rw [extract, ← linesOf, ofTrimmedLines_eq_empty nothing] at read
    exact absurd (Except.ok.inj read).symm full
  · push Not at nothing
    obtain ⟨_, _, _, stands⟩ := nothing
    obtain ⟨i, found, block, first⟩ := exists_first stands
    exact ⟨i, found, block, first, (ofTrimmedLines_eq_ofLines first).symm.trans read⟩

/-- The lines of a block as they stand in the source, with their line ends. -/
def standing (source : List Char) (i : Nat) (block : List (List Char)) : List (List Char) :=
  ((pieces source).drop i).take block.length

theorem map_standing {source : List Char} {i : Nat} {found : Lines} {block : List (List Char)}
    (stands : Stands (linesOf source) i found block) :
    (standing source i block).map trimEnd = block := by
  have here := List.prefix_iff_eq_take.mp stands.here
  rw [linesOf_eq, ← List.map_drop, ← List.map_take] at here
  exact here.symm

theorem getLast?_of_mem_standing {source piece : List Char} {i : Nat} {block : List (List Char)}
    (member : piece ∈ (standing source i block).dropLast) : piece.getLast? = some '\n' := by
  have within : (standing source i block).Sublist (pieces source) :=
    (List.take_sublist _ _).trans (List.drop_sublist i _)
  have shorter := within.reverse.tail.reverse
  rw [List.tail_reverse, List.tail_reverse, List.reverse_reverse, List.reverse_reverse] at shorter
  exact getLast?_of_mem_pieces (shorter.subset member)

/-- A header that is found stands in one comment, from the opening on its first line to the end on
its last line, exactly if no item of its lists ends a comment. Its title and its description never
do. -/
theorem one_comment_unless_listed {source : List Char} {header : Header}
    (read : extract source = .ok header) (full : header ≠ .empty) :
    ∃ i found block inner after, First (linesOf source) i found block ∧
      (standing source i block).flatten = "/*".toList ++ (inner ++ ("*/".toList ++ after)) ∧
      (∀ c ∈ after, isBlank c = true) ∧
      (¬ EndsComment inner ↔
        ∀ item ∈ header.partners ++ header.dependencies, ¬ EndsComment item.toList) ∧
      ¬ EndsComment header.title.toList ∧ ¬ EndsComment header.description.toList := by
  obtain ⟨i, found, block, first, spelled⟩ := exists_first_of_extract read full
  have spells := first.stands.spells
  rw [← map_standing first.stands] at spells
  obtain ⟨inner, after, text, behind, between⟩ := spells.comment fun _ => getLast?_of_mem_standing
  obtain ⟨title, description⟩ := spells.not_endsComment
  obtain rfl := eq_of_ofLines spelled
  refine ⟨i, found, block, inner, after, first, text, behind, ?_, by simpa using title,
    by simpa using description⟩
  rw [between, ListsEnd, ListsEnd]
  simp only [List.mem_append]
  push Not
  exact ⟨fun ⟨beside, below⟩ item member => member.elim (beside item) (below item),
    fun clear => ⟨fun item member => clear item (.inl member),
      fun item member => clear item (.inr member)⟩⟩

def partneredSource : List Char :=
  "/*\ntitle: web\ndesc: Web tier\npartners: db, * /\n*/\n".toList

theorem one_comment_unless_listed_partners :
    extract partneredSource = .ok ⟨"web", "Web tier", ["db", "* /"], []⟩ ∧
      Header.mk "web" "Web tier" ["db", "* /"] [] ≠ .empty ∧
      ∃ i found block inner after, First (linesOf partneredSource) i found block ∧
        (standing partneredSource i block).flatten =
          "/*".toList ++ (inner ++ ("*/".toList ++ after)) ∧ ¬ EndsComment inner := by
  have read : extract partneredSource = .ok ⟨"web", "Web tier", ["db", "* /"], []⟩ :=
    Except.toOption_eq_some.mp (by decide +kernel)
  have full : Header.mk "web" "Web tier" ["db", "* /"] [] ≠ .empty := by decide
  obtain ⟨i, found, block, inner, after, first, text, -, clear, -⟩ :=
    one_comment_unless_listed read full
  refine ⟨read, full, i, found, block, inner, after, first, text, clear.mpr fun item member => ?_⟩
  simp only [List.append_nil, List.mem_cons, List.not_mem_nil, or_false] at member
  rw [EndsComment, ← contains_iff]
  rcases member with rfl | rfl <;> decide

/-- A list may hold the end of a comment: what follows it is code, not a comment. -/
theorem list_ends_comment :
    ¬ ∀ source header, extract source = .ok header →
      ∀ item ∈ header.partners ++ header.dependencies, ¬ EndsComment item.toList := by
  intro clear
  have read : extract "/*\ntitle: web\ndesc: Web tier\npartners: a */ b\n*/\n".toList =
      .ok ⟨"web", "Web tier", ["a */ b"], []⟩ := Except.toOption_eq_some.mp (by decide +kernel)
  have ends : EndsComment "a */ b".toList := by
    rw [EndsComment, ← contains_iff]
    decide
  exact clear _ _ read "a */ b" (by simp) ends

end TerraDoc.Module.Header
