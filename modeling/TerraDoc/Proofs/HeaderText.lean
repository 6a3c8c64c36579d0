import TerraDoc.Proofs.CharacterClasses
import TerraDoc.Proofs.CommaList
import TerraDoc.Proofs.HeaderGrammar
import TerraDoc.Proofs.LineText

/-!
Headers that are written down. What is written for a header is read back as that header from any
place in a source.
-/

namespace TerraDoc.Module.Header

open Text

theorem linesOf_eq (source : List Char) : linesOf source = (pieces source).map trimEnd := by
  rw [linesOf, Text.lines, List.map_map]
  exact List.map_congr_left fun piece _ => trimEnd_stripLineEnd piece

theorem linesOf_append {front : List Char} (whole : ∀ c ∈ front.getLast?, c = '\n')
    (rest : List Char) : linesOf (front ++ rest) = linesOf front ++ linesOf rest := by
  rw [linesOf_eq, linesOf_eq, linesOf_eq, pieces_append whole, List.map_append]

/-- The line that gives a value under a name. -/
def fieldLine (name : String) (value : List Char) : List Char :=
  name.toList ++ ':' :: ' ' :: value

/-- The line of a list, or no line where there is nothing to list. -/
def listLines (name : String) (gap : List Char) (list : List String) : List (List Char) :=
  if list.isEmpty then [] else [fieldLine name (Hcl.listText gap String.toList list)]

/-- The lines of a header. A gap stands after every comma of a list. -/
def writtenLines (gap : List Char) (header : Header) : List (List Char) :=
  "/*".toList :: fieldLine "title" header.title.toList ::
    fieldLine "desc" header.description.toList ::
      (listLines "partners" gap header.partners ++
        (listLines "depends" gap header.dependencies ++ ["*/".toList]))

/-- The text of a header, each line with its line end. -/
def written (gap lineEnd : List Char) (header : Header) : List Char :=
  (header.writtenLines gap).flatMap (· ++ lineEnd)

/-- A text on one line without white space around it. -/
structure Inline (text : List Char) : Prop where
  single : '\n' ∉ text
  trimmed : trim text = text

/-- A header that can be written down. -/
structure Writable (header : Header) : Prop where
  titled : header.title ≠ ""
  word : ∀ c ∈ header.title.toList, isTitleChar c = true
  described : header.description ≠ ""
  description : Inline header.description.toList
  inside : ¬ "*/".toList <:+: header.description.toList
  items : ∀ item ∈ header.partners ++ header.dependencies,
    Inline item.toList ∧ ',' ∉ item.toList

theorem titleChar_not_blank {c : Char} (word : isTitleChar c = true) : isBlank c = false := by
  by_contra blank
  have other := blank_cases (fun c => isTitleChar c = false) (by decide +kernel) (by simpa using blank)
  rw [word] at other
  cases other

theorem itemBlank_blank {c : Char} (blank : isItemBlank c = true) : isBlank c = true := by
  simp only [isItemBlank, Bool.or_eq_true, beq_iff_eq] at blank
  rcases blank with ((rfl | rfl) | rfl) | rfl <;> decide

theorem gives_fieldLine (name : String) (value : List Char) :
    Gives name (trim value) (trimEnd (fieldLine name value)) := by
  have line : trimEnd (fieldLine name value) = name.toList ++ ':' :: trimEnd (' ' :: value) :=
    trimEndWhile_append_cons rfl name.toList (' ' :: value)
  have given : trim (trimEnd (' ' :: value)) = trim value := trimWhile_trimEndWhile (' ' :: value)
  rw [line, ← given]
  exact .line (trimEnd (' ' :: value))

/-- The text that a list gives, if it has a line. -/
def listed (gap : List Char) (list : List String) : Option (List Char) :=
  if list.isEmpty then none else some (trim (Hcl.listText gap String.toList list))

theorem mayGive_listLines (name : String) (gap : List Char) (list : List String) :
    MayGive name (listed gap list) ((listLines name gap list).map trimEnd) := by
  rw [listed, listLines]
  split
  · exact .absent
  · exact .given (gives_fieldLine name _)

/-- The lines that are written for a header spell it. -/
theorem spells_writtenLines {header : Header} (writable : header.Writable) (gap : List Char) :
    Spells ⟨header.title.toList, header.description.toList, listed gap header.partners,
      listed gap header.dependencies⟩ ((header.writtenLines gap).map trimEnd) := by
  have title : trim header.title.toList = header.title.toList := by
    refine trim_eq_self _ (fun c first => ?_) fun c last => ?_
    · exact titleChar_not_blank (writable.word c (List.mem_of_head? first))
    · exact titleChar_not_blank (writable.word c (List.mem_of_getLast? last))
  have titled := gives_fieldLine "title" header.title.toList
  have described := gives_fieldLine "desc" header.description.toList
  rw [title] at titled
  rw [writable.description.trimmed] at described
  have inside : ¬ "*/".toList <:+: trimEnd (fieldLine "desc" header.description.toList) := by
    rw [← contains_description described, contains_iff]
    exact writable.inside
  have closing : trim (trimEnd "*/".toList) = "*/".toList := by decide
  have opening : trimEnd "/*".toList = "/*".toList := by decide
  have spells := Spells.lines titled writable.word described inside
    (mayGive_listLines "partners" gap header.partners)
    (mayGive_listLines "depends" gap header.dependencies) closing
  rwa [writtenLines, List.map_cons, List.map_cons, List.map_cons, List.map_append, List.map_append,
    opening]

theorem items_append_comma {item : List Char} (apart : ',' ∉ item) (rest : List Char) :
    items (item ++ ',' :: rest) = String.ofList (trimWhile isItemBlank item) :: items rest := by
  rw [items, List.splitOn_append_cons_self, List.splitOn_eq_singleton apart]
  rfl

theorem items_single {item : List Char} (apart : ',' ∉ item) :
    items item = [String.ofList (trimWhile isItemBlank item)] := by
  rw [items, List.splitOn_eq_singleton apart]
  rfl

theorem trimWhile_item {front : List Char} {item : String} (blank : ∀ c ∈ front, isItemBlank c = true)
    (trimmed : trim item.toList = item.toList) :
    trimWhile isItemBlank (front ++ item.toList) = item.toList := by
  obtain ⟨first, last⟩ := ends_of_trimWhile_eq_self trimmed
  have solid {c : Char} (kept : isBlank c = false) : isItemBlank c = false :=
    Bool.eq_false_iff.mpr fun blank => by simp [itemBlank_blank blank] at kept
  by_cases empty : item.toList = []
  · rw [empty, List.append_nil, trimWhile, List.dropWhile_eq_nil_iff.mpr blank]
    rfl
  · have around := trimWhile_around isItemBlank front item.toList [] empty blank (by simp)
      (fun c member => solid (first c member)) fun c member => solid (last c member)
    rwa [List.append_nil] at around

theorem comma_apart {front : List Char} {item : String}
    (blank : ∀ c ∈ front, isItemBlank c = true) (apart : ',' ∉ item.toList) :
    ',' ∉ front ++ item.toList := by
  have clear : ',' ∉ front := fun member => by cases blank _ member
  simp [clear, apart]

theorem items_trimEnd_single {front : List Char} {item : String}
    (blank : ∀ c ∈ front, isItemBlank c = true) (inline : Inline item.toList)
    (apart : ',' ∉ item.toList) : items (trimEnd (front ++ item.toList)) = [item] := by
  by_cases empty : item.toList = []
  · have gone : trimEnd front = [] :=
      @trimEndWhile_append front isBlank (fun c member => itemBlank_blank (blank c member)) []
    rw [empty, List.append_nil, gone, String.toList_eq_nil_iff.mp empty]
    decide
  · have last := (ends_of_trimWhile_eq_self inline.trimmed).2
    have kept : trimEnd (front ++ item.toList) = front ++ item.toList :=
      trimEndWhile_of_last fun c member => last c (by
        rwa [List.getLast?_append_of_ne_nil _ empty] at member)
    rw [kept, items_single (comma_apart blank apart), trimWhile_item blank inline.trimmed,
      String.ofList_toList]

/-- The items of a list are read back, whatever blanks stand before the first one. Only blanks after
the last comma go with the end of the line. -/
theorem items_trimEnd_listText {gap front : List Char} (blanks : ∀ c ∈ gap, isItemBlank c = true)
    (blank : ∀ c ∈ front, isItemBlank c = true) {item : String} {list : List String}
    (inline : ∀ i ∈ item :: list, Inline i.toList ∧ ',' ∉ i.toList) :
    items (trimEnd (front ++ Hcl.listText gap String.toList (item :: list))) = item :: list := by
  induction list generalizing item front with
  | nil =>
    obtain ⟨single, apart⟩ := inline item List.mem_cons_self
    rw [Hcl.listText, Hcl.moreText, List.append_nil]
    exact items_trimEnd_single blank single apart
  | cons other list inductionHypothesis =>
    obtain ⟨single, apart⟩ := inline item List.mem_cons_self
    have line : front ++ Hcl.listText gap String.toList (item :: other :: list) =
        (front ++ item.toList) ++ ',' :: (gap ++ Hcl.listText gap String.toList (other :: list)) := by
      simp [Hcl.listText, Hcl.moreText]
    have later := inductionHypothesis blanks fun i member => inline i (.tail _ member)
    rw [trimEnd] at later
    rw [line, trimEnd, trimEndWhile_append_cons rfl, items_append_comma (comma_apart blank apart),
      trimWhile_item blank single.trimmed, String.ofList_toList, later]

theorem dropWhile_listText {gap : List Char} {item : String} {list : List String}
    (inline : Inline item.toList) :
    (Hcl.listText gap String.toList (item :: list)).dropWhile isBlank =
      Hcl.listText gap String.toList (item :: list) := by
  have first := (ends_of_trimWhile_eq_self inline.trimmed).1
  rw [Hcl.listText]
  cases shape : item.toList with
  | nil => cases list <;> rfl
  | cons c rest =>
    rw [shape] at first
    rw [List.cons_append, List.dropWhile_cons_of_neg (by simpa using first c rfl)]

theorem items_listed {gap : List Char} (blanks : ∀ c ∈ gap, isItemBlank c = true)
    {list : List String} (inline : ∀ i ∈ list, Inline i.toList ∧ ',' ∉ i.toList) :
    (listed gap list).elim [] items = list := by
  cases list with
  | nil => rfl
  | cons item list =>
    have front := @dropWhile_listText gap item list (inline item List.mem_cons_self).1
    have read := @items_trimEnd_listText gap [] blanks (by simp) item list inline
    rw [List.nil_append] at read
    show items (trimEndWhile isBlank (List.dropWhile isBlank _)) = item :: list
    rw [front]
    exact read

theorem ofTrimmedLines_append {front : List (List Char)} (unopened : "/*".toList ∉ front)
    (lines : List (List Char)) : ofTrimmedLines (front ++ lines) = ofTrimmedLines lines := by
  induction front with
  | nil => rfl
  | cons line front inductionHypothesis =>
    rw [List.mem_cons, not_or] at unopened
    rw [List.cons_append, ofTrimmedLines, if_neg (Ne.symm unopened.1),
      inductionHypothesis unopened.2]

theorem ofTrimmedLines_of_spells {found : Lines} {block : List (List Char)}
    (spells : Spells found block) (rest : List (List Char)) :
    ofTrimmedLines (block ++ rest) = ofLines found := by
  have first : First (block ++ rest) 0 found block :=
    ⟨⟨spells, List.prefix_append block rest⟩, fun j before => absurd before (Nat.not_lt_zero j)⟩
  exact ofTrimmedLines_eq_ofLines first

theorem not_mem_writtenLines {header : Header} (writable : header.Writable) {gap : List Char}
    (gaps : ∀ c ∈ gap, c = ' ' ∨ c = '\t') : ∀ line ∈ header.writtenLines gap, '\n' ∉ line := by
  have titled : '\n' ∉ header.title.toList := fun member =>
    absurd (writable.word _ member) (by decide)
  have field {name : String} {value : List Char} (named : '\n' ∉ name.toList)
      (single : '\n' ∉ value) : '\n' ∉ fieldLine name value := by
    simp [fieldLine, named, single]
  have list {name : String} {items : List String} (named : '\n' ∉ name.toList)
      (inline : ∀ i ∈ items, '\n' ∉ i.toList) : ∀ line ∈ listLines name gap items, '\n' ∉ line := by
    intro line member
    rw [listLines] at member
    split at member
    · cases member
    · rw [List.mem_singleton.mp member]
      refine field named fun inside => ?_
      rcases Hcl.mem_listText inside with comma | blank | ⟨item, member, inside⟩
      · cases comma
      · rcases gaps _ blank with space | tab
        · cases space
        · cases tab
      · exact inline item member inside
  have items := writable.items
  intro line member
  simp only [writtenLines, List.mem_cons, List.mem_append, List.not_mem_nil, or_false] at member
  rcases member with rfl | rfl | rfl | beside | below | rfl
  · decide
  · exact field (by decide) titled
  · exact field (by decide) writable.description.single
  · exact list (by decide) (fun i inside => (items i (List.mem_append_left _ inside)).1.single)
      line beside
  · exact list (by decide) (fun i inside => (items i (List.mem_append_right _ inside)).1.single)
      line below
  · decide

/-- The lines of a source that begins with a written header. -/
theorem linesOf_written {header : Header} {gap lineEnd : List Char}
    (single : ∀ line ∈ header.writtenLines gap, '\n' ∉ line)
    (ends : lineEnd = ['\n'] ∨ lineEnd = ['\r', '\n']) (back : List Char) :
    linesOf (header.written gap lineEnd ++ back) =
      (header.writtenLines gap).map trimEnd ++ linesOf back := by
  obtain ⟨carriage, rfl, single', blank⟩ : ∃ carriage : List Char, lineEnd = carriage ++ ['\n'] ∧
      '\n' ∉ carriage ∧ ∀ c ∈ carriage ++ ['\n'], isBlank c = true := by
    rcases ends with rfl | rfl
    · exact ⟨[], rfl, by decide, List.all_eq_true.mp (by decide)⟩
    · exact ⟨['\r'], rfl, by decide, List.all_eq_true.mp (by decide)⟩
  have text : header.written gap (carriage ++ ['\n']) =
      ((header.writtenLines gap).map (· ++ carriage)).flatMap (· ++ ['\n']) := by
    simp [written, List.flatMap_map]
  have apart : ∀ line ∈ (header.writtenLines gap).map (· ++ carriage), '\n' ∉ line := by
    intro line member
    obtain ⟨start, within, rfl⟩ := List.mem_map.mp member
    simp [single start within, single']
  rw [linesOf_eq, text, pieces_lines apart, List.map_append, List.map_map, List.map_map, linesOf_eq]
  refine congrArg (· ++ (pieces back).map trimEnd) (List.map_congr_left fun line _ => ?_)
  show trimEnd (line ++ carriage ++ ['\n']) = trimEnd line
  rw [List.append_assoc]
  exact trimEndWhile_append blank line

theorem ofLines_listed {header : Header} (writable : header.Writable) {gap : List Char}
    (gaps : ∀ c ∈ gap, c = ' ' ∨ c = '\t') :
    ofLines ⟨header.title.toList, header.description.toList, listed gap header.partners,
      listed gap header.dependencies⟩ = .ok header := by
  have blanks : ∀ c ∈ gap, isItemBlank c = true := by
    intro c member
    rcases gaps c member with rfl | rfl <;> rfl
  have partners := items_listed blanks fun i member =>
    writable.items i (List.mem_append_left header.dependencies member)
  have dependencies := items_listed blanks fun i member =>
    writable.items i (List.mem_append_right header.partners member)
  have titled := writable.titled
  have described := writable.described
  simp [ofLines, titled, described, partners, dependencies]

/-- A header that is written down is read back, whatever stands before and after it, if no header
opens before it: with both kinds of line ends, with any blanks after the commas, and with every
list, one of empty items included. -/
theorem extract_written {header : Header} (writable : header.Writable)
    {front gap lineEnd : List Char} (whole : front = [] ∨ front.getLast? = some '\n')
    (unopened : "/*".toList ∉ linesOf front) (gaps : ∀ c ∈ gap, c = ' ' ∨ c = '\t')
    (ends : lineEnd = ['\n'] ∨ lineEnd = ['\r', '\n']) (back : List Char) :
    extract (front ++ (header.written gap lineEnd ++ back)) = .ok header := by
  have closed : ∀ c ∈ front.getLast?, c = '\n' := by
    rcases whole with rfl | last
    · simp
    · simp [last]
  have lines := linesOf_written (not_mem_writtenLines writable gaps) ends back
  calc extract (front ++ (header.written gap lineEnd ++ back))
    _ = ofTrimmedLines (linesOf front ++ ((header.writtenLines gap).map trimEnd ++ linesOf back)) := by
        rw [extract, ← linesOf, linesOf_append closed, lines]
    _ = ofTrimmedLines ((header.writtenLines gap).map trimEnd ++ linesOf back) :=
        ofTrimmedLines_append unopened _
    _ = ofLines _ := ofTrimmedLines_of_spells (spells_writtenLines writable gap) (linesOf back)
    _ = .ok header := ofLines_listed writable gaps

/-- A header whose lists have empty items. -/
def gappyHeader : Header :=
  ⟨"web", "Web: tier, one", ["", "a b"], [""]⟩

theorem gappyHeader_writable : gappyHeader.Writable := by
  have word : ∀ c ∈ gappyHeader.title.toList, isTitleChar c = true := List.all_eq_true.mp (by decide)
  refine ⟨by decide, word, by decide, ⟨by decide, by decide⟩, ?_, fun item member => ?_⟩
  · rw [← contains_iff]
    decide
  · simp only [gappyHeader, List.cons_append, List.nil_append, List.mem_cons, List.not_mem_nil,
      or_false] at member
    rcases member with rfl | rfl | rfl <;> exact ⟨⟨by decide, by decide⟩, by decide⟩

/-- After a comment, with line ends of two characters, and before another header. -/
theorem extract_written_gappy :
    gappyHeader.Writable ∧ "/*".toList ∉ linesOf "/* one */\r\n".toList ∧
      extract ("/* one */\r\n".toList ++ (gappyHeader.written [' '] ['\r', '\n'] ++
        "/*\ntitle: other\ndesc: Other\n*/".toList)) = .ok gappyHeader := by
  have unopened : "/*".toList ∉ linesOf "/* one */\r\n".toList := by decide
  exact ⟨gappyHeader_writable, unopened, extract_written gappyHeader_writable (.inr (by decide))
    unopened (by simp) (.inr rfl) _⟩

end TerraDoc.Module.Header
