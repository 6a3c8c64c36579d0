import Mathlib.Data.List.DropRight
import Mathlib.Data.List.Infix
import Mathlib.Data.Nat.Find
import TerraDoc.Module.Header
import TerraDoc.Proofs.Results

/-!
The grammar of headers, and that the search for a header follows it: the first lines of that shape
decide alone what is found.
-/

namespace TerraDoc

namespace Text

theorem head?_trim {c : Char} (solid : isBlank c = false) (rest : List Char) :
    (trim (c :: rest)).head? = some c := by
  have trimmed : trim (c :: rest) = (c :: rest).rdropWhile isBlank := by
    rw [trim, trimWhile, List.dropWhile_cons_of_neg (by simpa using solid)]
    rfl
  have nonempty : (c :: rest).rdropWhile isBlank ≠ [] := by
    intro none
    have blank := List.rdropWhile_eq_nil_iff.mp none c List.mem_cons_self
    rw [solid] at blank
    cases blank
  obtain ⟨first, more, shape⟩ := List.exists_cons_of_ne_nil nonempty
  obtain ⟨dropped, whole⟩ := List.rdropWhile_prefix isBlank (c :: rest)
  rw [shape, List.cons_append] at whole
  rw [trimmed, shape, (List.cons.inj whole).1]
  rfl

/-- What begins with a character that a lead does not hold is found behind the lead or not at
all. -/
theorem infix_append_iff {c : Char} {lead : List Char} (apart : c ∉ lead) (part text : List Char) :
    c :: part <:+: lead ++ text ↔ c :: part <:+: text := by
  induction lead with
  | nil => rfl
  | cons d lead inductionHypothesis =>
    rw [List.mem_cons, not_or] at apart
    rw [List.cons_append, List.infix_cons_iff, inductionHypothesis apart.2]
    constructor
    · intro found
      rcases found with ⟨_, here⟩ | later
      · exact absurd (List.cons.inj here).1 apart.1
      · exact later
    · exact Or.inr

theorem infix_dropWhile {drop : Char → Bool} {c : Char} (solid : drop c = false)
    (part text : List Char) : c :: part <:+: text.dropWhile drop ↔ c :: part <:+: text := by
  have apart : c ∉ text.takeWhile drop := by
    intro member
    have dropped := List.mem_takeWhile_imp member
    rw [solid] at dropped
    cases dropped
  have split := infix_append_iff apart part (text.dropWhile drop)
  rw [List.takeWhile_append_dropWhile] at split
  exact split.symm

theorem infix_trimEndWhile {drop : Char → Bool} {d : Char} (solid : drop d = false)
    (part text : List Char) : part ++ [d] <:+: trimEndWhile drop text ↔ part ++ [d] <:+: text := by
  have ends : (part ++ [d]).reverse = d :: part.reverse := by simp
  rw [trimEndWhile, ← List.reverse_infix, List.reverse_reverse, ends, infix_dropWhile solid, ← ends,
    List.reverse_infix]

theorem infix_trimWhile {drop : Char → Bool} {c d : Char} (first : drop c = false)
    (last : drop d = false) (middle text : List Char) :
    c :: (middle ++ [d]) <:+: trimWhile drop text ↔ c :: (middle ++ [d]) <:+: text := by
  rw [trimWhile, ← List.cons_append, infix_trimEndWhile last, List.cons_append,
    infix_dropWhile first]

theorem contains_iff (part text : List Char) : contains part text = true ↔ part <:+: text := by
  induction text with
  | nil => simp [contains]
  | cons c rest inductionHypothesis =>
    rw [contains, Bool.or_eq_true, List.isPrefixOf_iff_prefix, inductionHypothesis,
      List.infix_cons_iff]

/-- No piece of a text that is cut at a separator holds it. -/
theorem not_mem_of_mem_splitOn {separator : Char} {text piece : List Char}
    (member : piece ∈ text.splitOn separator) : separator ∉ piece := by
  induction text generalizing piece with
  | nil =>
    rw [List.splitOn_nil, List.mem_singleton] at member
    simp [member]
  | cons c rest inductionHypothesis =>
    rw [List.splitOn_cons_eq_if_modifyHead] at member
    obtain ⟨first, more, split⟩ := List.exists_cons_of_ne_nil (List.splitOn_ne_nil separator rest)
    rw [split] at inductionHypothesis member
    by_cases cut : (c == separator) = true
    · rw [if_pos cut, List.mem_cons] at member
      rcases member with rfl | later
      · exact List.not_mem_nil
      · exact inductionHypothesis later
    · rw [if_neg cut, List.modifyHead_cons, List.mem_cons] at member
      rcases member with rfl | later
      · have other : separator ≠ c := fun same => cut (beq_iff_eq.mpr same.symm)
        simpa [other] using inductionHypothesis List.mem_cons_self
      · exact inductionHypothesis (List.mem_cons_of_mem first later)

end Text

namespace Module.Header

/-- A line that gives a value under a name. -/
inductive Gives (name : String) : List Char → List Char → Prop where
  | line (text : List Char) : Gives name (Text.trim text) (name.toList ++ ':' :: text)

/-- The lines that give a value under a name, one at most. -/
inductive MayGive (name : String) : Option (List Char) → List (List Char) → Prop where
  | absent : MayGive name none []
  | given {value line : List Char} (gives : Gives name value line) :
      MayGive name (some value) [line]

/-- The lines of a header, from its opening to its closing, and what they give. -/
inductive Spells : Lines → List (List Char) → Prop where
  | lines {title description first second last : List Char}
      {partners dependencies : Option (List Char)} {third fourth : List (List Char)}
      (titled : Gives "title" title first) (word : ∀ c ∈ title, isTitleChar c = true)
      (described : Gives "desc" description second) (inside : ¬ "*/".toList <:+: second)
      (beside : MayGive "partners" partners third)
      (below : MayGive "depends" dependencies fourth)
      (closing : Text.trim last = "*/".toList) :
      Spells ⟨title, description, partners, dependencies⟩
        ("/*".toList :: first :: second :: (third ++ (fourth ++ [last])))

/-- A header stands at a line. -/
structure Stands (lines : List (List Char)) (i : Nat) (found : Lines) (block : List (List Char)) :
    Prop where
  spells : Spells found block
  here : block <+: lines.drop i

/-- A header stands at a line, and none at a line before it. -/
structure First (lines : List (List Char)) (i : Nat) (found : Lines) (block : List (List Char)) :
    Prop where
  stands : Stands lines i found block
  least : ∀ j < i, ∀ other block, ¬ Stands lines j other block

/-- The items of a list are the pieces between its commas without the blanks at their ends. A list
that is not there has none. -/
inductive Lists : Option (List Char) → List String → Prop where
  | absent : Lists none []
  | given {pieces : List (List Char)} (nonempty : pieces ≠ []) (apart : ∀ piece ∈ pieces, ',' ∉ piece) :
      Lists (some ([','].intercalate pieces))
        (pieces.map fun piece => String.ofList (Text.trimWhile isItemBlank piece))

/-- The lines of a source without the white space at their ends. -/
def linesOf (source : List Char) : List (List Char) :=
  (Text.lines source).map Text.trimEnd

theorem field?_eq_some_iff (name : String) (line value : List Char) :
    field? name line = some value ↔ Gives name value line := by
  rw [field?, Option.map_eq_some_iff]
  constructor
  · rintro ⟨text, rest, rfl⟩
    rw [Text.after?_eq_some_iff, List.append_assoc] at rest
    subst rest
    exact Gives.line text
  · intro gives
    cases gives with
    | line text =>
      refine ⟨text, ?_, rfl⟩
      rw [Text.after?_eq_some_iff, List.append_assoc]
      rfl

theorem field?_eq_none_of_gives {name other : String} {value line : List Char}
    (gives : Gives name value line) (apart : name.toList.head? ≠ other.toList.head?)
    (named : name.toList ≠ []) (named' : other.toList ≠ []) : field? other line = none := by
  rw [Option.eq_none_iff_forall_ne_some]
  intro value' found
  rw [field?_eq_some_iff] at found
  obtain ⟨c, rest, split⟩ := List.exists_cons_of_ne_nil named
  obtain ⟨d, rest', split'⟩ := List.exists_cons_of_ne_nil named'
  cases gives with
  | line text =>
    generalize whole : name.toList ++ ':' :: text = line at found
    cases found with
    | line text' =>
      rw [split, split', List.cons_append, List.cons_append] at whole
      rw [split, split'] at apart
      exact apart (congrArg some (List.cons.inj whole).1)

theorem field?_closing {name : String} {last : List Char} (closing : Text.trim last = "*/".toList)
    {c : Char} (starts : name.toList.head? = some c) (solid : Text.isBlank c = false)
    (other : c ≠ '*') : field? name last = none := by
  rw [Option.eq_none_iff_forall_ne_some]
  intro value found
  rw [field?_eq_some_iff] at found
  obtain ⟨rest, split⟩ := List.head?_eq_some_iff.mp starts
  cases found with
  | line text =>
    have first := Text.head?_trim solid (rest ++ ':' :: text)
    rw [← List.cons_append, ← split, closing] at first
    exact other (Option.some.inj first).symm

theorem mayGive_of_optionalField {name : String} {value : Option (List Char)}
    {lines rest : List (List Char)} (read : optionalField name lines = (value, rest)) :
    ∃ front, MayGive name value front ∧ lines = front ++ rest := by
  cases lines with
  | nil =>
    cases read
    exact ⟨[], .absent, rfl⟩
  | cons line after =>
    rw [optionalField] at read
    cases given : field? name line with
    | none =>
      rw [given] at read
      cases read
      exact ⟨[], .absent, rfl⟩
    | some text =>
      rw [given] at read
      cases read
      have gives := (field?_eq_some_iff name line text).mp given
      exact ⟨[line], .given gives, rfl⟩

theorem optionalField_append {name : String} {value : Option (List Char)}
    {front rest : List (List Char)} (may : MayGive name value front)
    (apart : ∀ line ∈ rest.head?, field? name line = none) :
    optionalField name (front ++ rest) = (value, rest) := by
  cases may with
  | absent =>
    cases rest with
    | nil => rfl
    | cons line rest =>
      have none := apart line rfl
      rw [List.nil_append, optionalField, none]
  | given gives =>
    rw [List.singleton_append, optionalField, (field?_eq_some_iff name _ _).mpr gives]

theorem field?_partners_below {dependencies : Option (List Char)} {fourth : List (List Char)}
    {last : List Char} (below : MayGive "depends" dependencies fourth)
    (closing : Text.trim last = "*/".toList) (rest : List (List Char)) :
    ∀ line ∈ (fourth ++ (last :: rest)).head?, field? "partners" line = none := by
  intro line first
  cases below with
  | absent =>
    cases first
    exact field?_closing closing rfl (by decide) (by decide)
  | given gives =>
    cases first
    exact field?_eq_none_of_gives gives (by decide) (by decide) (by decide)

theorem infix_of_gives {name : String} {value line : List Char} (named : '*' ∉ name.toList)
    (gives : Gives name value line) : "*/".toList <:+: value ↔ "*/".toList <:+: line := by
  cases gives with
  | line text =>
    have front : '*' ∉ name.toList ++ [':'] := by simp [named]
    have split : name.toList ++ ':' :: text = (name.toList ++ [':']) ++ text := by simp
    rw [split]
    calc "*/".toList <:+: Text.trim text
      _ ↔ "*/".toList <:+: text := Text.infix_trimWhile (by decide) (by decide) [] text
      _ ↔ "*/".toList <:+: (name.toList ++ [':']) ++ text :=
          (Text.infix_append_iff front ['/'] text).symm

theorem contains_description {description line : List Char}
    (described : Gives "desc" description line) :
    Text.contains "*/".toList description = true ↔ "*/".toList <:+: line := by
  rw [Text.contains_iff]
  exact infix_of_gives (by decide) described

/-- The lines that have the shape of a header spell one. -/
theorem spells_of_shape? {lines : List (List Char)} {found : Lines}
    (shape : shape? lines = some found) :
    ∃ block, Spells found ("/*".toList :: block) ∧ block <+: lines := by
  match lines with
  | [] | [_] => cases shape
  | first :: second :: rest =>
    rw [shape?] at shape
    obtain ⟨title, titled, shape⟩ := Option.bind_eq_some_iff.mp shape
    obtain ⟨description, described, shape⟩ := Option.bind_eq_some_iff.mp shape
    rw [field?_eq_some_iff] at titled described
    by_cases refused : (!title.all isTitleChar || Text.contains "*/".toList description) = true
    · rw [if_pos refused] at shape
      cases shape
    · rw [if_neg refused] at shape
      rw [Bool.or_eq_true, not_or, Bool.not_eq_true', Bool.not_eq_false, List.all_eq_true,
        contains_description described] at refused
      rcases partnersRead : optionalField "partners" rest with ⟨partners, rest'⟩
      rcases dependenciesRead : optionalField "depends" rest' with ⟨dependencies, rest''⟩
      obtain ⟨third, beside, rfl⟩ := mayGive_of_optionalField partnersRead
      obtain ⟨fourth, below, rfl⟩ := mayGive_of_optionalField dependenciesRead
      rw [partnersRead] at shape
      simp only [dependenciesRead] at shape
      cases rest'' with
      | nil => cases shape
      | cons last after =>
        by_cases closing : Text.trim last = "*/".toList
        · simp only [if_pos closing] at shape
          cases shape
          refine ⟨_, .lines titled refused.1 described refused.2 beside below closing, after, ?_⟩
          simp
        · simp only [if_neg closing] at shape
          cases shape

/-- Lines that spell a header have its shape. -/
theorem shape?_of_spells {found : Lines} {block lines : List (List Char)} {line : List Char}
    (spells : Spells found block) (here : block <+: line :: lines) :
    line = "/*".toList ∧ shape? lines = some found := by
  obtain ⟨rest, whole⟩ := here
  cases spells with
  | @lines title description first second last partners dependencies third fourth titled word
      described inside beside below closing =>
    rw [List.cons_append] at whole
    obtain ⟨opening, rfl⟩ := List.cons.inj whole
    refine ⟨opening.symm, ?_⟩
    have accepted :
        ¬ (!title.all isTitleChar || Text.contains "*/".toList description) = true := by
      rw [Bool.or_eq_true, not_or, Bool.not_eq_true', Bool.not_eq_false, List.all_eq_true,
        contains_description described]
      exact ⟨word, inside⟩
    have partnersRead :
        optionalField "partners" (third ++ (fourth ++ last :: rest)) =
          (partners, fourth ++ last :: rest) :=
      optionalField_append beside (field?_partners_below below closing rest)
    have dependenciesRead :
        optionalField "depends" (fourth ++ last :: rest) = (dependencies, last :: rest) := by
      apply optionalField_append below
      intro line head
      cases head
      exact field?_closing closing rfl (by decide) (by decide)
    have tail : second :: (third ++ (fourth ++ [last])) ++ rest =
        second :: (third ++ (fourth ++ last :: rest)) := by simp
    rw [List.cons_append, tail, shape?, (field?_eq_some_iff _ _ _).mpr titled,
      (field?_eq_some_iff _ _ _).mpr described]
    simp only [Option.bind_eq_bind, Option.bind_some, if_neg accepted, partnersRead,
      dependenciesRead, if_pos closing]

theorem Spells.ne_nil {found : Lines} {block : List (List Char)} (spells : Spells found block) :
    block ≠ [] := by
  cases spells with
  | lines => exact List.cons_ne_nil _ _

theorem Stands.later {lines : List (List Char)} {i : Nat} {found : Lines}
    {block : List (List Char)} (stands : Stands lines i found block) (line : List Char) :
    Stands (line :: lines) (i + 1) found block :=
  ⟨stands.spells, stands.here⟩

theorem shape?_eq_none {line : List Char} {rest : List (List Char)}
    (nothing : ∀ found block, ¬ Stands (line :: rest) 0 found block) (opening : line = "/*".toList) :
    shape? rest = none := by
  rw [Option.eq_none_iff_forall_ne_some]
  intro found shape
  obtain ⟨block, spells, before⟩ := spells_of_shape? shape
  apply nothing found ("/*".toList :: block)
  refine ⟨spells, ?_⟩
  rw [List.drop_zero, opening]
  exact (List.prefix_cons_inj _).mpr before

theorem ofTrimmedLines_eq_empty {lines : List (List Char)}
    (nothing : ∀ i found block, ¬ Stands lines i found block) :
    ofTrimmedLines lines = .ok .empty := by
  induction lines with
  | nil => rfl
  | cons line rest inductionHypothesis =>
    have later := inductionHypothesis fun i found block stands =>
      nothing (i + 1) found block (stands.later line)
    rw [ofTrimmedLines]
    by_cases opening : line = "/*".toList
    · rw [if_pos opening, shape?_eq_none (nothing 0) opening]
      exact later
    · rw [if_neg opening]
      exact later

theorem ofTrimmedLines_eq_ofLines {lines : List (List Char)} {i : Nat} {found : Lines}
    {block : List (List Char)} (first : First lines i found block) :
    ofTrimmedLines lines = ofLines found := by
  induction i generalizing lines with
  | zero =>
    obtain ⟨spells, here⟩ := first.stands
    cases lines with
    | nil => exact absurd (List.prefix_nil.mp here) spells.ne_nil
    | cons line rest =>
      obtain ⟨opening, shape⟩ := shape?_of_spells spells here
      rw [ofTrimmedLines, if_pos opening, shape]
  | succ i inductionHypothesis =>
    obtain ⟨spells, here⟩ := first.stands
    cases lines with
    | nil => exact absurd (List.prefix_nil.mp here) spells.ne_nil
    | cons line rest =>
      have later : First rest i found block := by
        refine ⟨⟨spells, here⟩, ?_⟩
        intro j before other block' stands
        exact first.least (j + 1) (Nat.succ_lt_succ before) other block' (stands.later line)
      rw [ofTrimmedLines]
      by_cases opening : line = "/*".toList
      · rw [if_pos opening, shape?_eq_none (first.least 0 (Nat.succ_pos i)) opening]
        exact inductionHypothesis later
      · rw [if_neg opening]
        exact inductionHypothesis later

theorem exists_first {lines : List (List Char)} {i : Nat} {found : Lines}
    {block : List (List Char)} (stands : Stands lines i found block) :
    ∃ i found block, First lines i found block := by
  classical
  have somewhere : ∃ i, ∃ found block, Stands lines i found block := ⟨i, found, block, stands⟩
  obtain ⟨found, block, least⟩ := Nat.find_spec somewhere
  refine ⟨Nat.find somewhere, found, block, least, ?_⟩
  intro j before other block' stands'
  exact Nat.find_min somewhere before ⟨other, block', stands'⟩

theorem lists_items (list : Option (List Char)) : Lists list (list.elim [] items) := by
  cases list with
  | none => exact Lists.absent
  | some text =>
    have given := Lists.given (List.splitOn_ne_nil ',' text)
      fun _ member => Text.not_mem_of_mem_splitOn member
    rw [List.intercalate_splitOn] at given
    exact given

theorem ofLines_eq_ok {found : Lines} (titled : found.title ≠ [])
    (described : found.description ≠ []) :
    ∃ partners dependencies, Lists found.partners partners ∧
      Lists found.dependencies dependencies ∧
      ofLines found = .ok ⟨String.ofList found.title, String.ofList found.description,
        partners, dependencies⟩ := by
  refine ⟨_, _, lists_items found.partners, lists_items found.dependencies, ?_⟩
  rw [ofLines, if_neg (by simpa using titled), if_neg (by simpa using described)]

theorem ofLines_ne_empty (found : Lines) : ofLines found ≠ .ok .empty := by
  by_cases titled : found.title = []
  · simp [ofLines, titled]
  by_cases described : found.description = []
  · simp [ofLines, titled, described]
  obtain ⟨partners, dependencies, -, -, same⟩ := ofLines_eq_ok titled described
  intro empty
  rw [same] at empty
  have title := congrArg Header.title (Except.ok.inj empty)
  exact titled (String.ofList_eq_empty_iff.mp title)

/-- The search for a header follows the grammar, and the first match decides alone. Without a match
the header is empty. Else the search fails exactly if the first match gives no title or no
description, and otherwise gives what this match says. Its lines decide: the lines before it and
after it make no difference. -/
theorem extract_first_match (source : List Char) :
    (extract source = .ok .empty ↔
        ∀ i found block, ¬ Stands (linesOf source) i found block) ∧
      ∀ i found block, First (linesOf source) i found block →
        ((∃ cause, extract source = .error cause) ↔
          found.title = [] ∨ found.description = []) ∧
        (found.title ≠ [] → found.description ≠ [] →
          ∃ partners dependencies, Lists found.partners partners ∧
            Lists found.dependencies dependencies ∧
            extract source = .ok ⟨String.ofList found.title, String.ofList found.description,
              partners, dependencies⟩) ∧
        ∀ other j, First (linesOf other) j found block → extract other = extract source := by
  have search : ∀ source i found block, First (linesOf source) i found block →
      extract source = ofLines found :=
    fun _ _ _ _ first => ofTrimmedLines_eq_ofLines first
  constructor
  · constructor
    · intro empty i found block stands
      obtain ⟨_, found, _, first⟩ := exists_first stands
      rw [search _ _ _ _ first] at empty
      exact ofLines_ne_empty found empty
    · exact ofTrimmedLines_eq_empty
  · intro i found block first
    rw [search _ _ _ _ first]
    refine ⟨?_, ofLines_eq_ok, ?_⟩
    · constructor
      · rintro ⟨cause, failed⟩
        by_contra full
        rw [not_or] at full
        obtain ⟨_, _, -, -, same⟩ := ofLines_eq_ok full.1 full.2
        rw [same] at failed
        cases failed
      · intro missing
        by_cases titled : found.title = []
        · exact ⟨.emptyTitle, by simp [ofLines, titled]⟩
        · have described := missing.resolve_left titled
          exact ⟨_, by simp only [ofLines, described]; simp [titled]; rfl⟩
    · intro other j first'
      exact search _ _ _ _ first'

/-- A source whose header lists an item that ends in a no-break space. -/
def spacedSource : List Char :=
  "/*\ntitle: web\ndesc: Web tier\npartners: a\u00a0,b\n*/\n".toList

def spacedLines : Lines :=
  ⟨"web".toList, "Web tier".toList, some "a\u00a0,b".toList, none⟩

/-- White space stays at the ends of an item, unless it is a blank, a tab or a line end. -/
theorem other_blank_stays :
    ¬ ∀ source i found block header list, First (linesOf source) i found block →
      extract source = .ok header → found.partners = some list →
      header.partners = (list.splitOn ',').map fun piece => String.ofList (Text.trim piece) := by
  intro trimmed
  have opening : linesOf spacedSource = "/*".toList :: (linesOf spacedSource).tail := by
    decide +kernel
  have shape : shape? (linesOf spacedSource).tail = some spacedLines := by decide +kernel
  obtain ⟨block, spells, here⟩ := spells_of_shape? shape
  have first : First (linesOf spacedSource) 0 spacedLines ("/*".toList :: block) := by
    refine ⟨⟨spells, ?_⟩, fun j before => absurd before (Nat.not_lt_zero j)⟩
    rw [List.drop_zero, opening]
    exact (List.prefix_cons_inj _).mpr here
  have found : extract spacedSource = .ok ⟨"web", "Web tier", ["a\u00a0", "b"], []⟩ :=
    Except.toOption_eq_some.mp (by decide +kernel)
  have same := trimmed spacedSource 0 spacedLines _ _ _ first found rfl
  exact absurd same (by decide +kernel)

end Module.Header

end TerraDoc
