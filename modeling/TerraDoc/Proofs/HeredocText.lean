import Mathlib.Data.Bool.AllAny
import TerraDoc.Hcl.Heredoc
import TerraDoc.Proofs.LineText
import TerraDoc.Proofs.Results

namespace TerraDoc.Hcl.Heredoc

variable {count : Nat} {marker text moved front indent : List Char}

/-- A body of plain text: whole lines, none of which is the marker. -/
structure Literal (marker text : List Char) : Prop where
  ended : ∀ c ∈ text.getLast?, c = '\n'
  null : '\x00' ∉ text
  feed : '\r' ∉ text
  interpolation : ¬ ['$', '{'] <:+: text
  directive : ¬ ['%', '{'] <:+: text
  open_ : ∀ line ∈ Text.lines text, Text.trim line ≠ marker

/-- A text of whole lines, and the same text with so many spaces or tabs before each line. -/
inductive Shifted (count : Nat) : List Char → List Char → Prop where
  | nil : Shifted count [] []
  | line {front line rest moved : List Char} (length : front.length = count)
      (blank : ∀ c ∈ front, isIndent c = true) (single : '\n' ∉ line)
      (later : Shifted count rest moved) :
      Shifted count (line ++ '\n' :: rest) (front ++ (line ++ '\n' :: moved))

/-- A line that is not blank begins at the margin. -/
def AtMargin (text : List Char) : Prop :=
  ∃ line ∈ Text.lines text, Text.trim line ≠ [] ∧ ∀ c ∈ line.head?, isIndent c = false

theorem isIndent_cases {c : Char} (blank : isIndent c = true) : c = ' ' ∨ c = '\t' := by
  simpa [isIndent] using blank

theorem indentation_append (blank : ∀ c ∈ front, isIndent c = true) (line : List Char) :
    indentation (front ++ line) = front.length + indentation line := by
  rw [indentation, List.takeWhile_append_of_pos blank, List.length_append, indentation]

theorem feed_not_mem_append (blank : ∀ c ∈ front, isIndent c = true) {line : List Char}
    (single : '\n' ∉ line) : '\n' ∉ front ++ line := by
  rw [List.mem_append, not_or]
  exact ⟨fun member => absurd (blank _ member) (by decide), single⟩

theorem trim_append (blank : ∀ c ∈ front, isIndent c = true) (line : List Char) :
    Text.trim (front ++ line) = Text.trim line := by
  have spaces : ∀ c ∈ front, Text.isBlank c = true := fun c member => by
    rcases isIndent_cases (blank c member) with rfl | rfl <;> rfl
  rw [Text.trim, Text.trimWhile, List.dropWhile_append_of_pos spaces]
  rfl

namespace Shifted

theorem lines (shifted : Shifted count text moved) (feed : '\r' ∉ text) :
    List.Forall₂ (fun line moved => ∃ front, moved = front ++ line ∧ front.length = count ∧
      ∀ c ∈ front, isIndent c = true) (Text.lines text) (Text.lines moved) := by
  induction shifted with
  | nil => exact .nil
  | @line front line rest moved length blank single _ ih =>
    rw [List.mem_append, not_or] at feed
    have last : line.getLast? ≠ some '\r' := fun ends => feed.1 (List.mem_of_getLast? ends)
    have whole := feed_not_mem_append blank single
    have ends : (front ++ line).getLast? ≠ some '\r' := fun ends => by
      rcases List.mem_append.mp (List.mem_of_getLast? ends) with before | inside
      · exact absurd (blank _ before) (by decide)
      · exact feed.1 inside
    rw [← List.append_assoc, Text.lines_line single last, Text.lines_line whole ends]
    exact .cons ⟨front, rfl, length, blank⟩ (ih fun member => feed.2 (.tail _ member))

theorem unindent (shifted : Shifted count text moved) : unindent count moved = text := by
  induction shifted with
  | nil => rfl
  | @line front line rest moved length blank single _ ih =>
    have whole := feed_not_mem_append blank single
    have enough : min count (indentation (front ++ line ++ ['\n'])) = front.length := by
      rw [List.append_assoc, indentation_append blank]
      omega
    rw [← List.append_assoc, Heredoc.unindent, Text.pieces_line whole, List.flatMap_cons, enough,
      List.append_assoc front, List.drop_left, ← Heredoc.unindent, ih, List.append_assoc]
    rfl

/-- What all lines share is what was put before each of them. -/
theorem sharedIndentation (shifted : Shifted count text moved) (feed : '\r' ∉ text)
    (margin : AtMargin text) : sharedIndentation moved = count := by
  have lines := shifted.lines feed
  obtain ⟨line, member, solid, first⟩ := margin
  have flush : indentation line = 0 := by
    cases line with
    | nil => rfl
    | cons c line => rw [indentation, List.takeWhile_cons_of_neg (by simp [first c rfl]), List.length_nil]
  have least : ((((Text.lines moved).filter fun line => !(Text.trim line).isEmpty).map
      indentation).min?) = some count := by
    rw [List.min?_eq_some_iff]
    constructor
    · obtain ⟨image, there, front, rfl, length, blank⟩ := exists_of_mem_left lines member
      refine List.mem_map.mpr ⟨front ++ line, List.mem_filter.mpr ⟨there, ?_⟩, ?_⟩
      · simpa [trim_append blank] using solid
      · rw [indentation_append blank, flush, length, Nat.add_zero]
    · intro n listed
      obtain ⟨image, kept, rfl⟩ := List.mem_map.mp listed
      obtain ⟨line, -, front, rfl, length, blank⟩ :=
        exists_of_mem_right lines (List.mem_filter.mp kept).1
      rw [indentation_append blank]
      omega
  rw [Heredoc.sharedIndentation, least]
  rfl

theorem mem (shifted : Shifted count text moved) {c : Char} (member : c ∈ moved) :
    c ∈ text ∨ isIndent c = true := by
  induction shifted with
  | nil => cases member
  | line _ blank _ _ ih =>
    simp only [List.mem_append, List.mem_cons] at member ⊢
    rcases member with before | inside | rfl | later
    · exact .inr (blank c before)
    · exact .inl (.inl inside)
    · exact .inl (.inr (.inl rfl))
    · exact (ih later).imp_left fun rest => .inr (.inr rest)

theorem infix_text (shifted : Shifted count text moved) {part : List Char} (nonempty : part ≠ [])
    (single : '\n' ∉ part) (solid : ∀ c ∈ part, isIndent c = false) (found : part <:+: moved) :
    part <:+: text := by
  induction shifted with
  | nil => exact found
  | @line front line rest moved _ blank _ _ ih =>
    have apart : ∀ c ∈ front, c ∉ part := fun c before inside => by
      exact Bool.eq_false_iff.mp (solid c inside) (blank c before)
    have later := Text.infix_of_append nonempty apart found
    rw [Text.infix_append_cons_iff nonempty single] at later ⊢
    exact later.imp_right ih

theorem ended (shifted : Shifted count text moved) : ∀ c ∈ moved.getLast?, c = '\n' := by
  induction shifted with
  | nil => rintro c ⟨⟩
  | @line front line rest moved _ _ _ _ ih =>
    intro c last
    rw [← List.append_assoc, List.getLast?_append, List.getLast?_cons] at last
    cases ends : moved.getLast? with
    | none => simpa [ends, eq_comm] using last
    | some d =>
      rw [ih d ends] at ends
      simpa [ends, eq_comm] using last

theorem literal (shifted : Shifted count text moved) (plain : Literal marker text) :
    Literal marker moved where
  ended := shifted.ended
  null member := (shifted.mem member).elim plain.null (by decide)
  feed member := (shifted.mem member).elim plain.feed (by decide)
  interpolation found := plain.interpolation
    (shifted.infix_text (by simp) (by decide) (List.all_iff_forall_prop.mp (by decide)) found)
  directive found := plain.directive
    (shifted.infix_text (by simp) (by decide) (List.all_iff_forall_prop.mp (by decide)) found)
  open_ image there := by
    obtain ⟨line, member, front, rfl, -, blank⟩ :=
      exists_of_mem_right (shifted.lines plain.feed) there
    rw [trim_append blank]
    exact plain.open_ line member

end Shifted

theorem unescape_eq_self (interpolation : ¬ ['$', '{'] <:+: text)
    (directive : ¬ ['%', '{'] <:+: text) : unescape text = text := by
  fun_induction unescape text with
  | case1 rest => exact absurd ⟨['$'], rest, rfl⟩ interpolation
  | case2 rest => exact absurd ⟨['%'], rest, rfl⟩ directive
  | case3 c rest _ _ ih =>
    rw [ih (fun found => interpolation (List.infix_cons found))
      fun found => directive (List.infix_cons found)]
  | case4 => rfl

/-- Between the markers stand a line end, the lines of the body, and the blanks before the closing
marker. -/
theorem trimEndWhile_lines (ended : ∀ c ∈ text.getLast?, c = '\n')
    (blank : ∀ c ∈ indent, isIndent c = true) :
    Text.trimEndWhile isIndent (dropLineBreak ('\n' :: (text ++ indent))) = text := by
  have kept : ∀ c ∈ text.getLast?, isIndent c = false := fun c last => by
    rw [ended c last]
    rfl
  rw [dropLineBreak, Text.trimEndWhile_append blank, Text.trimEndWhile_of_last kept]

theorem text_literal (plain : Literal marker text) (blank : ∀ c ∈ indent, isIndent c = true) :
    Heredoc.text false ('\n' :: (text ++ indent)) = text := by
  simp only [Heredoc.text, trimEndWhile_lines plain.ended blank, Bool.false_eq_true, if_false,
    unescape_eq_self plain.interpolation plain.directive]

theorem text_shifted (plain : Literal marker text) (margin : AtMargin text)
    (shifted : Shifted count text moved) (blank : ∀ c ∈ indent, isIndent c = true) :
    Heredoc.text true ('\n' :: (moved ++ indent)) = text := by
  simp only [Heredoc.text, trimEndWhile_lines shifted.ended blank, if_true,
    shifted.sharedIndentation plain.feed margin, shifted.unindent,
    unescape_eq_self plain.interpolation plain.directive]

end TerraDoc.Hcl.Heredoc
