import TerraDoc.Proofs.DeclarationReading
import TerraDoc.Proofs.HeredocMirror
import TerraDoc.Proofs.HeredocText

/-!
A heredoc of plain lines is read as one, and its value is the text that it stands for.
-/

namespace TerraDoc.Hcl

open Heredoc (isIndent Literal Shifted AtMargin)

variable {α : Type} {total : Nat} {marker body indent left tail blanks : List Char}

namespace Reads

variable {text : List Char} {good : α → Prop} {reader : Reader α}

theorem of_run {other : Reader α} (reads : Reads total other text left good)
    (same : ∀ p tokens, reader ⟨p, text, tokens⟩ = other ⟨p, text, tokens⟩) :
    Reads total reader text left good := by
  intro p tokens place
  rw [same]
  exact reads p tokens place

theorem apart (reads : Reads total reader text left good) :
    Reads total (Reader.apart reader) text left fun x => good x.1 := by
  intro p tokens place
  obtain ⟨a, q, inside, run, place, holds⟩ := reads p [] place
  refine ⟨(a, inside.reverse), q, tokens, ?_, place, holds⟩
  show (reader ⟨p, text, []⟩).bind _ = _
  rw [run]
  rfl

theorem spanned {taken : List Char} (reads : Reads total reader (taken ++ left) left good) :
    Reads total reader.spanned (taken ++ left) left fun x => good x.1 ∧ x.2.text = taken :=
  .bind .get fun _ ⟨same, place⟩ => .bind reads fun _ holds =>
    .bind (.sliceFrom same place) fun _ text => .pure ⟨holds, text⟩

end Reads

theorem lineLength?_cases (line : List Char) : (lineLength? line = none ∧ AtLineEnd line) ∨
    ∃ text rest, lineLength? line = some text.length ∧ line = text ++ rest ∧ '\n' ∉ text := by
  obtain ⟨spaces, after, rfl, blank, ends⟩ := exists_longest isSpace line
  have single : '\n' ∉ spaces := fun member => absurd (blank _ member) (by decide)
  cases after with
  | nil => exact .inr ⟨spaces, [], by rw [List.append_nil, lineLength?_spaces blank], rfl, single⟩
  | cons c after =>
    have length := lineLength?_append blank (ends c rfl) after
    by_cases feed : c = '\n'
    · subst feed
      refine .inl ⟨length, spaces, after, rfl, fun d member => ?_⟩
      simpa [isSpace] using blank d member
    · rw [if_neg feed] at length
      exact .inr ⟨spaces ++ [c], after, by simpa using length, by simp, by simp [single, Ne.symm feed]⟩

/-- A stretch goes past some blanks, and past characters of one line. -/
theorem stretchLength?_single {text : List Char} {first : Char} {count : Nat}
    (marks : ∀ c ∈ marker, Reader.isMarkerChar c = true) (solid : isBlank first = false)
    (found : stretchLength? marker blanks (first :: text) = some count) :
    ∃ stretch rest, first :: text = stretch ++ rest ∧ blanks.length + stretch.length = count ∧
      0 < count ∧ '\n' ∉ stretch := by
  have single : '\n' ∉ marker := fun member => absurd (marks _ member) (by decide)
  unfold stretchLength? at found
  dsimp only at found
  split at found
  · rename_i feed
    have filled : 0 < blanks.length := List.length_pos_of_mem (List.contains_iff_mem.mp feed)
    split at found
    · rename_i short
      obtain ⟨rest, split, -⟩ := sharedLength_level short
      cases found
      refine ⟨marker.take _, rest, split, ?_, by omega, fun member => ?_⟩
      · rw [List.length_take, Nat.min_eq_left (Nat.le_of_lt short)]
      · exact single (List.mem_of_mem_take member)
    · rename_i whole
      obtain ⟨line, split⟩ := append_of_sharedLength whole
      rw [split, sharedLength_append, List.drop_left] at found
      obtain ⟨length, goes, rfl⟩ := Option.map_eq_some_iff.mp found
      rcases lineLength?_cases line with ⟨ended, -⟩ | ⟨more, rest, whole, rfl, apart⟩
      · rw [ended] at goes
        cases goes
      · obtain rfl : more.length = length := Option.some.inj (whole.symm.trans goes)
        refine ⟨marker ++ more, rest, by rw [split, List.append_assoc], ?_, by omega, ?_⟩
        · rw [List.length_append, Nat.add_assoc]
        · simp [single, apart]
  · cases found
    refine ⟨[first], text, rfl, rfl, Nat.succ_pos _, ?_⟩
    rintro (_ | ⟨_, ⟨⟩⟩)
    cases solid

theorem signed_plain (expression : Reader Expr) {sign c : Char} {after : List Char}
    (template : isTemplateSign sign = true) (brace : c ≠ '{')
    (doubled : ¬ [sign, '{'] <+: c :: after) :
    ∃ stretch rest, sign :: c :: after = stretch ++ rest ∧ stretch ≠ [] ∧ '\n' ∉ stretch ∧
      Reads total (Reader.signed expression sign (c :: after)) (stretch ++ rest) rest (· = []) := by
  have feed : '\n' ≠ sign := by rintro rfl; cases template
  have text (taken rest : List Char) (length : (if c = sign then
      (if ['{'].isPrefixOf after then 3 else 2) else 1) = taken.length) :
      Reads total (Reader.signed expression sign (c :: after)) (taken ++ rest) rest (· = []) := by
    rw [signed_cons, if_neg brace, length]
    exact .bind (.token .text taken rest) fun _ _ => .pure rfl
  by_cases same : c = sign
  · subst same
    have single : ['{'].isPrefixOf after = false := by
      refine Bool.eq_false_iff.mpr fun opens => doubled ?_
      exact List.cons_prefix_cons.mpr ⟨rfl, List.isPrefixOf_iff_prefix.mp opens⟩
    exact ⟨[c, c], after, rfl, by simp, by simp [feed], text _ _ (by simp [single])⟩
  · exact ⟨[sign], c :: after, rfl, by simp, by simp [feed], text _ _ (by simp [same])⟩

theorem heredocPart_done {first : Char} {more : List Char} (feed : '\n' ∈ blanks)
    (blank : ∀ c ∈ blanks, isBlank c = true)
    (marks : ∀ c ∈ first :: more, Reader.isMarkerChar c = true) (expression : Reader Expr)
    (after : List Char) :
    Reads total (Reader.heredocPart (first :: more) expression)
      (blanks ++ (first :: more ++ '\n' :: after)) (blanks ++ (first :: more ++ '\n' :: after))
      (· = none) := by
  have mark := marks first List.mem_cons_self
  have plain : isTemplateSign first = false := by
    refine Bool.eq_false_iff.mpr fun template => ?_
    rw [isTemplateSign, Bool.or_eq_true, beq_iff_eq, beq_iff_eq] at template
    rcases template with rfl | rfl <;> cases mark
  have closes : stretchLength? (first :: more) blanks (first :: (more ++ '\n' :: after)) = none := by
    refine stretchLength?_eq_none.mpr ⟨by simpa using feed, '\n' :: after, rfl, ?_⟩
    exact @lineLength?_append [] (by simp) '\n' rfl after
  refine .of_run (.pure rfl) fun p tokens => ?_
  rw [List.cons_append, heredocPart_text _ expression blank (not_blank_of_mark mark) plain, closes]

/-- What is left of a plain body on the way through it: it ends in a line feed, holds neither an
interpolation nor a directive, and no whole line in it is the marker. -/
structure PlainRest (marker left : List Char) : Prop where
  ended : left.getLast? = some '\n'
  plain : ∀ sign, isTemplateSign sign = true → ¬ [sign, '{'] <:+: left
  open_ : ∀ line rest, '\n' :: (line ++ '\n' :: rest) <:+ left → '\n' ∉ line →
    Text.trim line ≠ marker

namespace PlainRest

theorem suffix {rest : List Char} (here : PlainRest marker left) (within : rest <:+ left)
    (nonempty : rest ≠ []) : PlainRest marker rest where
  ended := by
    obtain ⟨front, rfl⟩ := within
    rw [← here.ended, List.getLast?_append_of_ne_nil _ nonempty]
  plain sign template found := here.plain sign template (found.trans within.isInfix)
  open_ line rest stands := here.open_ line rest (stands.trans within)

/-- No line that the marker opens ends with it. -/
theorem goes_on {first : Char} {text : List Char} (here : PlainRest marker (blanks ++ first :: text))
    (filled : marker ≠ []) (marks : ∀ c ∈ marker, Reader.isMarkerChar c = true)
    (blank : ∀ c ∈ blanks, isBlank c = true) (tail : List Char) :
    stretchLength? marker blanks (first :: (text ++ tail)) ≠ none := by
  intro closes
  obtain ⟨feed, line, split, ended⟩ := stretchLength?_eq_none.mp closes
  obtain ⟨spaces, after, rfl, spaced⟩ : AtLineEnd line := by
    rcases lineLength?_cases line with ⟨-, ends⟩ | ⟨more, rest, goes, -⟩
    · exact ends
    · rw [goes] at ended
      cases ended
  obtain ⟨front, lead, rfl, apart⟩ := Text.exists_last_line (List.contains_iff_mem.mp feed)
  have single : '\n' ∉ marker ++ spaces := by
    intro member
    rcases List.mem_append.mp member with inside | inside
    · exact absurd (marks _ inside) (by decide)
    · exact (spaced _ inside).2 rfl
  have later := here.suffix (List.suffix_append _ _) (List.cons_ne_nil first text)
  obtain ⟨left, nonempty, whole, rest⟩ := Text.append_of_single later.ended single
    (split.trans (List.append_assoc ..).symm)
  obtain ⟨c, left, rfl⟩ := List.exists_cons_of_ne_nil nonempty
  obtain rfl : '\n' = c := (List.cons.inj rest).1
  refine here.open_ (lead ++ (marker ++ spaces)) left ⟨front, by simp [whole]⟩ ?_ ?_
  · rw [List.mem_append, not_or]
    exact ⟨apart, single⟩
  · exact Exponent.trim_closingLine filled marks
      (fun c member => blank c (by simp [member])) fun c member => (spaced c member).1

theorem leaves {stretch after : List Char} (here : PlainRest marker left)
    (split : left ++ tail = stretch ++ after) (single : '\n' ∉ stretch) :
    ∃ rest, after = rest ++ tail ∧ left.length = stretch.length + rest.length ∧
      PlainRest marker rest := by
  obtain ⟨rest, nonempty, rfl, rfl⟩ := Text.append_of_single here.ended single split
  exact ⟨rest, rfl, List.length_append, here.suffix (List.suffix_append _ _) nonempty⟩

theorem signed {sign : Char} {text : List Char} (here : PlainRest marker (sign :: text))
    (template : isTemplateSign sign = true) (expression : Reader Expr) (tail : List Char) :
    ∃ stretch after, sign :: (text ++ tail) = stretch ++ after ∧ stretch ≠ [] ∧ '\n' ∉ stretch ∧
      Reads total (Reader.signed expression sign (text ++ tail)) (stretch ++ after) after
        (· = []) := by
  have feed : sign ≠ '\n' := by rintro rfl; cases template
  cases text with
  | nil => exact absurd (by simpa using here.ended) feed
  | cons c text =>
    refine signed_plain expression template ?_ ?_
    · rintro rfl
      exact here.plain sign template ⟨[], text, rfl⟩
    · rintro ⟨rest, opens⟩
      have next := here.suffix (List.suffix_cons _ _) (List.cons_ne_nil c text)
      have single : '\n' ∉ [sign, '{'] := by simp [Ne.symm feed]
      obtain ⟨left, -, whole, -⟩ := Text.append_of_single next.ended single opens.symm
      exact next.plain sign template ⟨[], left, whole.symm⟩

/-- A stretch of a plain body leaves less of it. -/
theorem heredocPart (here : PlainRest marker left) (filled : marker ≠ [])
    (marks : ∀ c ∈ marker, Reader.isMarkerChar c = true) (solid : ¬ ∀ c ∈ left, isBlank c = true)
    (expression : Reader Expr) (tail : List Char) :
    ∃ rest, rest.length < left.length ∧ PlainRest marker rest ∧
      Reads total (Reader.heredocPart marker expression) (left ++ tail) (rest ++ tail)
        fun found => ∃ parts, found = some parts ∧ parts = [] := by
  obtain ⟨blanks, after, rfl, blank, ends⟩ := exists_longest isBlank left
  cases after with
  | nil => exact absurd (by simpa using blank) solid
  | cons first text =>
    have kept := ends first rfl
    have later := here.suffix (List.suffix_append _ _) (List.cons_ne_nil first text)
    rw [List.append_assoc, List.cons_append, List.length_append]
    cases template : isTemplateSign first with
    | true =>
      obtain ⟨stretch, after, split, some, single, signed⟩ := later.signed template expression tail
      obtain ⟨rest, rfl, length, body⟩ := later.leaves split single
      have less := List.length_pos_iff.mpr some
      refine ⟨rest, by omega, body, .of_run ?_ fun p tokens =>
        heredocPart_signed marker expression blank template p _ tokens⟩
      rw [← split] at signed
      exact .bind (.take blanks _) fun _ _ => .bind signed fun parts none => .pure ⟨parts, rfl, none⟩
    | false =>
      cases found : stretchLength? marker blanks (first :: (text ++ tail)) with
      | none => exact absurd found (here.goes_on filled marks blank tail)
      | some count =>
        obtain ⟨stretch, after, split, rfl, some, single⟩ := stretchLength?_single marks kept found
        obtain ⟨rest, rfl, length, body⟩ := later.leaves split single
        refine ⟨rest, by omega, body, .of_run ?_ fun p tokens => by
          rw [heredocPart_text marker expression blank kept template, found]⟩
        rw [split, ← List.append_assoc, ← List.length_append]
        exact .bind (.take _ _) fun _ _ => .pure ⟨[], rfl, rfl⟩

/-- The stretches of a plain body, up to the blanks before the closing marker. -/
theorem repeated {after : List Char} (here : PlainRest marker left) (filled : marker ≠ [])
    (marks : ∀ c ∈ marker, Reader.isMarkerChar c = true) (blank : ∀ c ∈ indent, isBlank c = true)
    (expression : Reader Expr) {bound : Nat} (enough : left.length < bound) :
    ∃ blanks, (∀ c ∈ blanks, isBlank c = true) ∧
      Reads total (Reading.repeated bound (Reader.heredocPart marker expression))
        (left ++ (indent ++ (marker ++ '\n' :: after))) (blanks ++ (marker ++ '\n' :: after))
        fun stretches => stretches.flatten = [] := by
  -- every stretch leaves less of the body, so the bound lasts
  induction bound generalizing left with
  | zero => exact absurd enough (Nat.not_lt_zero _)
  | succ bound ih =>
    by_cases done : ∀ c ∈ left, isBlank c = true
    · obtain ⟨first, more, rfl⟩ := List.exists_cons_of_ne_nil filled
      have blanks : ∀ c ∈ left ++ indent, isBlank c = true := fun c member =>
        (List.mem_append.mp member).elim (done c) (blank c)
      have feed : '\n' ∈ left ++ indent :=
        List.mem_append_left indent (List.mem_of_getLast? here.ended)
      refine ⟨left ++ indent, blanks, ?_⟩
      rw [← List.append_assoc]
      refine (Reads.repeated_done bound (heredocPart_done feed blanks marks expression after)).mono ?_
      rintro stretches rfl
      rfl
    · obtain ⟨rest, less, later, part⟩ := here.heredocPart filled marks done expression
        (indent ++ (marker ++ '\n' :: after))
      obtain ⟨blanks, blank, others⟩ := ih later (by omega)
      refine ⟨blanks, blank, (Reads.repeated_more _ part others).mono ?_⟩
      rintro stretches ⟨_, others, rfl, rfl, none⟩
      exact none

end PlainRest

/-- A heredoc: the opening signs, the marker and the end of its line, the body, and the closing
marker with what stands before it on its line. -/
def Heredoc.written (indented : Bool) (marker body indent : List Char) : List Char :=
  '<' :: '<' :: ((if indented then ['-'] else []) ++ marker ++ '\n' :: (body ++ (indent ++ marker)))

/-- A marker: ASCII letters, digits and underscores, the first one a letter. -/
structure Heredoc.IsMarker (marker : List Char) : Prop where
  letter : ∃ c rest, marker = c :: rest ∧ c.isAlpha = true
  chars : ∀ c ∈ marker, c.isAlphanum = true ∨ c = '_'

namespace Heredoc

theorem IsMarker.ne_nil (word : IsMarker marker) : marker ≠ [] := by
  obtain ⟨c, rest, rfl, -⟩ := word.letter
  exact List.cons_ne_nil c rest

theorem IsMarker.marks (word : IsMarker marker) : ∀ c ∈ marker, Reader.isMarkerChar c = true := by
  intro c member
  rcases word.chars c member with char | rfl
  · simp [Reader.isMarkerChar, char]
  · rfl

theorem IsMarker.undashed (word : IsMarker marker) : marker.head? ≠ some '-' := by
  obtain ⟨c, rest, rfl, letter⟩ := word.letter
  intro dash
  obtain rfl : c = '-' := by simpa using dash
  cases letter

/-- The body of a heredoc from the line end before it. -/
theorem Literal.plainRest (plain : Literal marker body) : PlainRest marker ('\n' :: body) where
  ended := by
    rw [List.getLast?_cons]
    cases last : body.getLast? with
    | none => rfl
    | some c => rw [plain.ended c last]; rfl
  plain sign template found := by
    rcases List.infix_cons_iff.mp found with ⟨rest, opens⟩ | later
    · cases (List.cons.inj opens).1
      cases template
    · rw [isTemplateSign, Bool.or_eq_true, beq_iff_eq, beq_iff_eq] at template
      rcases template with rfl | rfl
      · exact plain.interpolation later
      · exact plain.directive later
  open_ line rest stands single := by
    have last : line.getLast? ≠ some '\r' := fun ends => by
      have member : '\r' ∈ '\n' :: body :=
        stands.subset (.tail _ (List.mem_append_left _ (List.mem_of_getLast? ends)))
      exact plain.feed (List.mem_of_ne_of_mem (by decide) member)
    exact plain.open_ line (Text.mem_lines single last stands)

end Heredoc

theorem isBlank_of_isIndent {c : Char} (indent : isIndent c = true) :
    isBlank c = true ∧ c ≠ '\n' := by
  rcases Heredoc.isIndent_cases indent with rfl | rfl <;> decide

theorem heredocBody_reads {after : List Char} (here : PlainRest marker left) (filled : marker ≠ [])
    (marks : ∀ c ∈ marker, Reader.isMarkerChar c = true) (blank : ∀ c ∈ indent, isBlank c = true)
    (expression : Reader Expr) {bound : Nat} (enough : left.length < bound) :
    Reads total (Reader.heredocBody bound expression marker)
      (left ++ (indent ++ (marker ++ '\n' :: after))) (marker ++ '\n' :: after) (· = []) := by
  obtain ⟨blanks, blank, stretches⟩ := here.repeated filled marks blank expression enough
  refine .bind stretches fun parts none => .bind .get fun there ⟨same, _⟩ => ?_
  obtain ⟨first, more, rfl⟩ := List.exists_cons_of_ne_nil filled
  have solid := not_blank_of_mark (marks first List.mem_cons_self)
  have taken : there.rest.takeWhile isBlank = blanks := by
    rw [same]
    exact (blanks_before blank solid _).1
  rw [taken]
  exact .bind (.take blanks _) fun _ _ => .pure none

/-- A heredoc of plain lines has no parts, and its body is what stands between the markers. -/
theorem heredocText_reads {indented : Bool} {after : List Char} (word : Heredoc.IsMarker marker)
    (plain : Literal marker body) (blank : ∀ c ∈ indent, isIndent c = true)
    (expression : Reader Expr) {bound : Nat} (enough : body.length + 1 < bound) :
    Reads total (Reader.heredocText bound expression)
      (Heredoc.written indented marker body indent ++ '\n' :: after) ('\n' :: after)
      fun x => x.1 = indented ∧ x.2.1 = [] ∧ x.2.2.text = '\n' :: (body ++ indent) := by
  have head : HeadText indented marker (if indented then ['-'] else []) [] :=
    ⟨rfl, fun _ => word.undashed, by simp, word.ne_nil, word.marks⟩
  have split : Heredoc.written indented marker body indent ++ '\n' :: after =
      ['<', '<'] ++ (if indented then ['-'] else []) ++ [] ++ marker ++
        ('\n' :: (body ++ indent) ++ (marker ++ '\n' :: after)) := by
    simp [Heredoc.written]
  have headed : Reads total Reader.heredocHead
      (Heredoc.written indented marker body indent ++ '\n' :: after)
      ('\n' :: (body ++ indent) ++ (marker ++ '\n' :: after)) (· = (indented, marker)) := by
    intro p tokens place
    rw [split] at place ⊢
    rw [List.length_append, ← Nat.add_assoc] at place
    exact ⟨_, _, tokens, head.reads (by rintro c ⟨⟩; rfl) p tokens, place, rfl⟩
  refine .bind headed ?_
  rintro ⟨_, _⟩ ⟨⟩
  have spaces : ∀ c ∈ indent, isBlank c = true := fun c member =>
    (isBlank_of_isIndent (blank c member)).1
  have bodied := @heredocBody_reads total marker indent _ after plain.plainRest word.ne_nil
    word.marks spaces expression bound (by simpa using enough)
  rw [List.cons_append, ← List.append_assoc, ← List.cons_append] at bodied
  refine .bind bodied.spanned fun x ⟨empty, text⟩ => ?_
  exact .bind (.take marker _) fun _ _ => .pure ⟨rfl, empty, text⟩

/-- What is read for a heredoc of plain lines. -/
def IsHeredoc (indented : Bool) (text : List Char) (e : Expr) : Prop :=
  ∃ slice body, e = .heredoc slice indented body ∧ body.text = text

theorem heredoc_reads {indented : Bool} {after : List Char} (word : Heredoc.IsMarker marker)
    (plain : Literal marker body) (blank : ∀ c ∈ indent, isIndent c = true)
    (expression : Reader Expr) {bound : Nat} (enough : body.length + 1 < bound) :
    Reads total (Reader.heredoc bound expression)
      (Heredoc.written indented marker body indent ++ '\n' :: after) ('\n' :: after)
      (IsHeredoc indented ('\n' :: (body ++ indent))) := by
  rw [Reader.heredoc_eq]
  have read := @heredocText_reads total marker body indent indented after word plain blank expression
    bound enough
  refine .bind read.spanned.apart fun x ⟨⟨same, empty, text⟩, _⟩ => .bind (.keep _) fun _ _ => ?_
  rw [Reader.heredocOf, same, empty]
  exact .pure ⟨_, _, rfl, text⟩

theorem writesLine_heredoc (indented : Bool) (word : Heredoc.IsMarker marker)
    (plain : Literal marker body) (blank : ∀ c ∈ indent, isIndent c = true) :
    WritesLine (Heredoc.written indented marker body indent)
      (IsHeredoc indented ('\n' :: (body ++ indent))) := by
  have starts : Starts (Heredoc.written indented marker body indent) := .of_head _ rfl rfl
  refine ⟨starts, fun total bound text after enough before closes => ?_⟩
  refine expression_of_operand starts enough before (.gap (by simp) closes) fun bound le => ?_
  have long : body.length + 1 < bound + 1 := by
    have filled := List.length_pos_iff.mpr word.ne_nil
    simp only [Heredoc.written, List.length_cons, List.length_append] at le
    omega
  have solid : Solid (Heredoc.written indented marker body indent ++ '\n' :: after) :=
    solid_of_head rfl
  refine operand_of_primary solid (by decide) (by decide) ?_
  refine .bind (.mark (.of_solid solid)) fun start ⟨same, _⟩ => ?_
  rw [same]
  exact heredoc_reads word plain blank _ long

namespace Exponent

theorem Crosses.heredoc {parts : HeredocParts} (regular : parts.Regular) (after : List Char) :
    Crosses (parts.text ++ ['\n']) after := by
  intro s braces code fresh
  rw [List.append_assoc] at fresh
  obtain ⟨previous, body⟩ := @scans_heredoc s braces parts [] after regular code fresh (by simp)
  have feed : phaseStep { s with phase := .lastHeredocLine, previous } '\n' after =
      ({ s with phase := .start, previous }, false) := rfl
  have closed : Scans Silent s (parts.text ++ ['\n']) after
      { s with phase := .start, previous := '\n' } :=
    .append body (scans_step feed (by simp) (by simp))
  exact ⟨_, scans_unmarked closed, code, rfl, fresh_start rfl _⟩

end Exponent

theorem exists_regular (indented : Bool) (word : Heredoc.IsMarker marker)
    (plain : Literal marker body) (blank : ∀ c ∈ indent, isIndent c = true) :
    ∃ parts : HeredocParts, parts.Regular ∧
      parts.text = Heredoc.written indented marker body indent := by
  obtain ⟨lines, rfl, single⟩ := Text.exists_lines plain.ended
  have feed : ∀ line ∈ lines, line.getLast? ≠ some '\r' := fun line member ends => by
    refine plain.feed (List.mem_flatMap.mpr ⟨line, member, ?_⟩)
    exact List.mem_append_left _ (List.mem_of_getLast? ends)
  have listed := Text.lines_flatMap single feed
  refine ⟨⟨if indented then ['-'] else [], marker, ['\n'], lines, indent⟩,
    ⟨?_, word.ne_nil, word.marks, fun _ => word.undashed, .inl rfl, single, ?_, ?_⟩, ?_⟩
  · cases indented
    · exact .inl rfl
    · exact .inr rfl
  · exact fun line member => plain.open_ line (listed.symm ▸ member)
  · exact fun c member => isBlank_of_isIndent (blank c member)
  · simp [HeredocParts.text, HeredocParts.body, Heredoc.written]

theorem written_no_null (indented : Bool) (word : Heredoc.IsMarker marker)
    (plain : Literal marker body) (blank : ∀ c ∈ indent, isIndent c = true) :
    '\x00' ∉ Heredoc.written indented marker body indent := by
  have marks : '\x00' ∉ marker := fun member => absurd (word.marks _ member) (by decide)
  have gap : '\x00' ∉ indent := fun member => absurd (blank _ member) (by decide)
  cases indented <;> simp [Heredoc.written, marks, gap, plain.null]

/-- What is written stands for a text: wherever an expression may end with its line it is read as
one with that value, and so it is as the attribute of a declaration. -/
structure StandsFor (written text : List Char) : Prop where
  read : WritesLine written fun e => e.value = .ok (.str (String.ofList text))
  declared : ∀ field : String, name? field.toList = some field.toList →
    ∃ file e line, parse? (declarationText field written) = some file ∧
      file.blocks = [⟨"variable", ["x"], [⟨field, e⟩], line⟩] ∧
        e.value = .ok (.str (String.ofList text))

theorem standsFor_of_text {indented : Bool} {text : List Char} (word : Heredoc.IsMarker marker)
    (plain : Literal marker body) (blank : ∀ c ∈ indent, isIndent c = true)
    (stands : Heredoc.text indented ('\n' :: (body ++ indent)) = text) :
    StandsFor (Heredoc.written indented marker body indent) text := by
  have read : WritesLine (Heredoc.written indented marker body indent)
      fun e => e.value = .ok (.str (String.ofList text)) := by
    refine (writesLine_heredoc indented word plain blank).mono ?_
    rintro e ⟨slice, between, rfl, shape⟩
    rw [Expr.value, shape, stands]
  obtain ⟨parts, regular, same⟩ := exists_regular indented word plain blank
  refine ⟨read, fun field named => parse?_declarationLine named read ?_ ?_⟩
  · exact written_no_null indented word plain blank
  · exact same ▸ Exponent.Crosses.heredoc regular _

/-- A heredoc of plain lines stands for its body, and an indented one for its body before it was
moved to the right. -/
theorem heredoc_stands_for_text {text : List Char} (word : Heredoc.IsMarker marker)
    (plain : Literal marker text) (blank : ∀ c ∈ indent, isIndent c = true) :
    StandsFor (Heredoc.written false marker text indent) text ∧
      (AtMargin text → ∀ count moved, Shifted count text moved →
        StandsFor (Heredoc.written true marker moved indent) text) := by
  refine ⟨standsFor_of_text word plain blank (Heredoc.text_literal plain blank), ?_⟩
  intro margin count moved shifted
  exact standsFor_of_text word (shifted.literal plain) blank
    (Heredoc.text_shifted plain margin shifted blank)

/-- Lines with signs, a blank line, one with an indentation of its own, and one that goes on after
the marker. -/
def plainLines : List Char :=
  "$a\n\n\t%b 1e3\n EOT.\n".toList

/-- The same lines, each after two spaces or tabs. -/
def movedLines : List Char :=
  "\t $a\n \t\n  \t%b 1e3\n\t\t EOT.\n".toList

theorem plainLines_shifted : Shifted 2 plainLines movedLines := by
  have before : plainLines = "$a".toList ++ '\n' :: ([] ++ '\n' ::
      ("\t%b 1e3".toList ++ '\n' :: (" EOT.".toList ++ '\n' :: []))) := rfl
  have behind : movedLines = "\t ".toList ++ ("$a".toList ++ '\n' :: (" \t".toList ++ ([] ++ '\n' ::
      ("  ".toList ++ ("\t%b 1e3".toList ++ '\n' :: ("\t\t".toList ++ (" EOT.".toList ++
        '\n' :: []))))))) := rfl
  rw [before, behind]
  refine .line rfl (List.all_eq_true.mp ?_) ?_ (.line rfl (List.all_eq_true.mp ?_) ?_
    (.line rfl (List.all_eq_true.mp ?_) ?_ (.line rfl (List.all_eq_true.mp ?_) ?_ .nil)))
  all_goals decide +kernel

theorem heredoc_stands_for_text_moved :
    StandsFor "<<EOT\n$a\n\n\t%b 1e3\n EOT.\n  EOT".toList plainLines ∧
      StandsFor "<<-EOT\n\t $a\n \t\n  \t%b 1e3\n\t\t EOT.\n  EOT".toList plainLines := by
  have word : Heredoc.IsMarker "EOT".toList :=
    ⟨⟨'E', ['O', 'T'], rfl, rfl⟩, List.all_iff_forall_prop.mp (by decide +kernel)⟩
  have plain : Literal "EOT".toList plainLines := by
    refine ⟨fun c last => (Option.some.inj last).symm, ?_, ?_, ?_, ?_, ?_⟩
    all_goals decide +kernel
  have margin : AtMargin plainLines := by
    refine ⟨"$a".toList, by decide +kernel, by decide +kernel, fun c first => ?_⟩
    obtain rfl : '$' = c := Option.some.inj first
    rfl
  have blank : ∀ c ∈ "  ".toList, isIndent c = true := List.all_eq_true.mp (by decide +kernel)
  have stands := heredoc_stands_for_text word plain blank
  exact ⟨stands.1, stands.2 margin 2 movedLines plainLines_shifted⟩

end TerraDoc.Hcl
