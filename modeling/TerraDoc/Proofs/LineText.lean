import Mathlib.Data.List.DropRight
import TerraDoc.Text.Blank
import TerraDoc.Text.Line

namespace TerraDoc.Text

variable {line rest text : List Char}

theorem pieces_line (single : '\n' ∉ line) (rest : List Char) :
    pieces (line ++ '\n' :: rest) = (line ++ ['\n']) :: pieces rest := by
  induction line with
  | nil => simp [pieces]
  | cons c line inductionHypothesis =>
    rw [List.mem_cons, not_or] at single
    rw [List.cons_append, pieces, if_neg (Ne.symm single.1), inductionHypothesis single.2]
    rfl

theorem pieces_last (single : '\n' ∉ line) (nonempty : line ≠ []) : pieces line = [line] := by
  induction line with
  | nil => exact absurd rfl nonempty
  | cons c line inductionHypothesis =>
    rw [List.mem_cons, not_or] at single
    rw [pieces, if_neg (Ne.symm single.1)]
    cases line with
    | nil => rfl
    | cons d line => rw [inductionHypothesis single.2 (by simp)]

theorem pieces_lines {lines : List (List Char)} (single : ∀ line ∈ lines, '\n' ∉ line)
    (rest : List Char) :
    pieces (lines.flatMap (· ++ ['\n']) ++ rest) = lines.map (· ++ ['\n']) ++ pieces rest := by
  induction lines with
  | nil => rfl
  | cons line lines inductionHypothesis =>
    have later := inductionHypothesis fun other member => single other (.tail _ member)
    rw [List.flatMap_cons, List.append_assoc, List.append_assoc, List.singleton_append,
      pieces_line (single line List.mem_cons_self), later]
    rfl

theorem exists_lines (whole : ∀ c ∈ text.getLast?, c = '\n') :
    ∃ lines : List (List Char), text = lines.flatMap (· ++ ['\n']) ∧ ∀ line ∈ lines, '\n' ∉ line := by
  induction text with
  | nil => exact ⟨[], rfl, by simp⟩
  | cons c text inductionHypothesis =>
    obtain ⟨lines, rfl, single⟩ := inductionHypothesis fun d last => whole d (by
      rw [List.getLast?_cons, Option.mem_def.mp last]
      rfl)
    by_cases feed : c = '\n'
    · exact ⟨[] :: lines, by simp [feed], by simpa using single⟩
    · cases lines with
      | nil => exact absurd (whole c rfl) feed
      | cons line lines =>
        refine ⟨(c :: line) :: lines, by simp, fun other member => ?_⟩
        rcases List.mem_cons.mp member with rfl | later
        · have apart := single line List.mem_cons_self
          simp [Ne.symm feed, apart]
        · exact single other (.tail _ later)

theorem pieces_append (whole : ∀ c ∈ text.getLast?, c = '\n') (rest : List Char) :
    pieces (text ++ rest) = pieces text ++ pieces rest := by
  obtain ⟨lines, rfl, single⟩ := exists_lines whole
  have alone := pieces_lines single []
  rw [List.append_nil] at alone
  rw [pieces_lines single, alone, pieces, List.append_nil]

/-- Every line but the last ends in a line feed. -/
theorem getLast?_of_mem_pieces {piece : List Char} (member : piece ∈ (pieces text).dropLast) :
    piece.getLast? = some '\n' := by
  induction text generalizing piece with
  | nil => cases member
  | cons c text inductionHypothesis =>
    rw [pieces] at member
    by_cases feed : c = '\n'
    · rw [if_pos feed] at member
      cases shape : pieces text with
      | nil => simp [shape] at member
      | cons first others =>
        rw [shape, List.dropLast_cons_of_ne_nil (List.cons_ne_nil _ _), List.mem_cons] at member
        rcases member with rfl | later
        · rfl
        · exact inductionHypothesis (shape ▸ later)
    · rw [if_neg feed] at member
      match shape : pieces text with
      | [] | [_] => simp [shape] at member
      | first :: second :: others =>
        rw [shape] at member inductionHypothesis
        rw [List.dropLast_cons_of_ne_nil (List.cons_ne_nil _ _), List.mem_cons] at member
        rcases member with rfl | later
        · have last := @inductionHypothesis first (by simp)
          rw [List.getLast?_cons, last]
          rfl
        · exact inductionHypothesis (by
            rw [List.dropLast_cons_of_ne_nil (List.cons_ne_nil _ _)]
            exact .tail _ later)

theorem stripLineEnd_feed (last : line.getLast? ≠ some '\r') :
    stripLineEnd (line ++ ['\n']) = line := by
  unfold stripLineEnd
  rw [List.reverse_append]
  split
  · rename_i before shape
    have reversed : line.reverse = '\r' :: before := (List.cons.inj shape).2
    rw [← List.head?_reverse, reversed] at last
    exact absurd rfl last
  · rename_i before _ shape
    have reversed : line.reverse = before := (List.cons.inj shape).2
    rw [← reversed, List.reverse_reverse]
  · rename_i other
    exact absurd rfl (other line.reverse)

theorem trimEnd_stripLineEnd (piece : List Char) :
    trimEnd (stripLineEnd piece) = trimEnd piece := by
  unfold stripLineEnd
  split
  · rename_i before shape
    simp [trimEnd, trimEndWhile, shape, isBlank]
  · rename_i before _ shape
    simp [trimEnd, trimEndWhile, shape, isBlank]
  · rfl

theorem lines_line (single : '\n' ∉ line) (last : line.getLast? ≠ some '\r') (rest : List Char) :
    Text.lines (line ++ '\n' :: rest) = line :: Text.lines rest := by
  rw [Text.lines, pieces_line single, List.map_cons, stripLineEnd_feed last]
  rfl

theorem lines_flatMap {lines : List (List Char)} (single : ∀ line ∈ lines, '\n' ∉ line)
    (last : ∀ line ∈ lines, line.getLast? ≠ some '\r') :
    Text.lines (lines.flatMap (· ++ ['\n'])) = lines := by
  induction lines with
  | nil => rfl
  | cons line lines inductionHypothesis =>
    rw [List.flatMap_cons, List.append_assoc, List.singleton_append,
      lines_line (single line List.mem_cons_self) (last line List.mem_cons_self),
      inductionHypothesis (fun other member => single other (.tail _ member))
        fun other member => last other (.tail _ member)]

theorem mem_lines (single : '\n' ∉ line) (last : line.getLast? ≠ some '\r')
    (stands : '\n' :: (line ++ '\n' :: rest) <:+ '\n' :: text) : line ∈ Text.lines text := by
  obtain ⟨front, rfl, whole⟩ : ∃ front, text = front ++ (line ++ '\n' :: rest) ∧
      ∀ c ∈ front.getLast?, c = '\n' := by
    obtain ⟨front, split⟩ := stands
    cases front with
    | nil => exact ⟨[], (List.cons.inj split).2.symm, by simp⟩
    | cons c front =>
      refine ⟨front ++ ['\n'], ?_, by simp⟩
      rw [List.append_assoc]
      exact (List.cons.inj split).2.symm
  rw [Text.lines, pieces_append whole, List.map_append, ← Text.lines, ← Text.lines,
    lines_line single last]
  exact List.mem_append_right _ List.mem_cons_self

theorem exists_last_line (feed : '\n' ∈ text) :
    ∃ front line, text = front ++ '\n' :: line ∧ '\n' ∉ line := by
  obtain ⟨line, front, split, apart⟩ := List.eq_append_cons_of_mem (List.mem_reverse.mpr feed)
  refine ⟨front.reverse, line.reverse, ?_, by simpa using apart⟩
  rw [← List.reverse_reverse text, split]
  simp

theorem append_of_single {stretch after : List Char} (ended : text.getLast? = some '\n')
    (single : '\n' ∉ stretch) (split : text ++ rest = stretch ++ after) :
    ∃ left, left ≠ [] ∧ text = stretch ++ left ∧ after = left ++ rest := by
  have feed : '\n' ∈ text := List.mem_of_getLast? ended
  rcases List.append_eq_append_iff.mp split with ⟨left, rfl, -⟩ | ⟨left, rfl, rfl⟩
  · exact absurd (List.mem_append_left left feed) single
  · refine ⟨left, ?_, rfl, rfl⟩
    rintro rfl
    exact single (by simpa using feed)

theorem infix_of_append {part front : List Char} (nonempty : part ≠ [])
    (apart : ∀ c ∈ front, c ∉ part) (found : part <:+: front ++ rest) : part <:+: rest := by
  induction front with
  | nil => exact found
  | cons c front inductionHypothesis =>
    rw [List.cons_append, List.infix_cons_iff] at found
    rcases found with ⟨after, starts⟩ | later
    · obtain ⟨d, part, rfl⟩ := List.exists_cons_of_ne_nil nonempty
      have same : d = c := (List.cons.inj starts).1
      exact absurd (same ▸ List.mem_cons_self) (apart c List.mem_cons_self)
    · exact inductionHypothesis (fun d member => apart d (.tail _ member)) later

theorem infix_append_cons_iff {part : List Char} {separator : Char} (nonempty : part ≠ [])
    (apart : separator ∉ part) (first rest : List Char) :
    part <:+: first ++ separator :: rest ↔ part <:+: first ∨ part <:+: rest := by
  have begins {front : List Char} (within : front ⊆ part) (starts : front <+: separator :: rest) :
      front = [] := by
    cases front with
    | nil => rfl
    | cons d front =>
      have same := (List.cons_prefix_cons.mp starts).1
      exact absurd (within List.mem_cons_self) (same ▸ apart)
  have behind : part <:+: separator :: rest ↔ part <:+: rest := by
    rw [List.infix_cons_iff]
    exact or_iff_right fun starts => nonempty (begins (List.Subset.refl part) starts)
  rw [List.infix_append_iff, behind, ← or_assoc]
  refine or_iff_left_of_imp fun ⟨front, back, split, ends, starts⟩ => .inl ?_
  have none := begins (fun c member => split ▸ List.mem_append_right front member) starts
  rw [split, none, List.append_nil]
  exact ends.isInfix

variable {drop : Char → Bool} {c : Char}

theorem trimEndWhile_nil : trimEndWhile drop [] = [] := rfl

theorem trimEndWhile_append_cons (solid : drop c = false) (front text : List Char) :
    trimEndWhile drop (front ++ c :: text) = front ++ c :: trimEndWhile drop text := by
  have stops : (c :: front.reverse).dropWhile drop = c :: front.reverse :=
    List.dropWhile_cons_of_neg (by simp [solid])
  have whole : (front ++ c :: text).reverse = text.reverse ++ c :: front.reverse := by simp
  rw [trimEndWhile, whole, List.dropWhile_append, stops]
  split
  · rename_i empty
    rw [List.isEmpty_iff] at empty
    simp [trimEndWhile, empty]
  · simp [trimEndWhile]

theorem trimEndWhile_append (blank : ∀ c ∈ rest, drop c = true) (text : List Char) :
    trimEndWhile drop (text ++ rest) = trimEndWhile drop text := by
  rw [trimEndWhile, List.reverse_append, List.dropWhile_append_of_pos (by simpa using blank)]
  rfl

theorem trimWhile_append (blank : ∀ c ∈ rest, drop c = true) (text : List Char) :
    trimWhile drop (text ++ rest) = trimWhile drop text := by
  rw [trimWhile, trimWhile, List.dropWhile_append]
  split
  · rename_i empty
    rw [List.isEmpty_iff.mp empty, List.dropWhile_eq_nil_iff.mpr blank]
  · exact trimEndWhile_append blank _

theorem trimEndWhile_of_last (last : ∀ c ∈ text.getLast?, drop c = false) :
    trimEndWhile drop text = text := by
  rcases List.eq_nil_or_concat text with rfl | ⟨front, c, rfl⟩
  · rfl
  · rw [List.concat_eq_append] at last ⊢
    exact trimEndWhile_append_cons (last c (by simp)) front []

/-- What is left after trimming begins and ends with characters that are kept. -/
theorem trimWhile_ends (drop : Char → Bool) {text : List Char}
    (kept : ∃ c ∈ text, drop c = false) :
    trimWhile drop text ≠ [] ∧ (∀ c ∈ (trimWhile drop text).head?, drop c = false) ∧
      ∀ c ∈ (trimWhile drop text).getLast?, drop c = false := by
  obtain ⟨c, inside, keep⟩ := kept
  have nonempty : text.dropWhile drop ≠ [] := fun none => by
    rw [List.dropWhile_eq_nil_iff] at none
    rw [none c inside] at keep
    cases keep
  obtain ⟨first, rest, split⟩ := List.exists_cons_of_ne_nil nonempty
  have start : drop first = false := by
    have head := List.head?_dropWhile_not drop text
    rwa [split] at head
  have trimmed : trimWhile drop text = (first :: rest).rdropWhile drop := by
    rw [trimWhile, split]
    rfl
  have left : (first :: rest).rdropWhile drop ≠ [] := fun none => by
    have all := List.rdropWhile_eq_nil_iff.mp none first List.mem_cons_self
    rw [start] at all
    cases all
  rw [trimmed]
  refine ⟨left, fun c head => ?_, fun c last => ?_⟩
  · obtain ⟨rest', whole⟩ := List.rdropWhile_prefix drop (l := first :: rest)
    obtain ⟨d, more, shape⟩ := List.exists_cons_of_ne_nil left
    rw [shape] at whole head
    obtain rfl : d = first := (List.cons.inj whole).1
    cases head
    exact start
  · rw [List.getLast?_eq_some_getLast left] at last
    cases last
    simpa using List.rdropWhile_last_not drop (first :: rest) left

theorem ends_of_trimWhile_eq_self (trimmed : trimWhile drop text = text) :
    (∀ c ∈ text.head?, drop c = false) ∧ ∀ c ∈ text.getLast?, drop c = false := by
  by_cases kept : ∃ c ∈ text, drop c = false
  · have ends := (trimWhile_ends drop kept).2
    rwa [trimmed] at ends
  · have dropped : text.dropWhile drop = [] :=
      List.dropWhile_eq_nil_iff.mpr fun c member => by
        by_contra other
        exact kept ⟨c, member, by simpa using other⟩
    rw [trimWhile, dropped, trimEndWhile_nil] at trimmed
    simp [← trimmed]

theorem trimEndWhile_split (drop : Char → Bool) (text : List Char) :
    ∃ rest, text = trimEndWhile drop text ++ rest ∧ ∀ c ∈ rest, drop c = true := by
  have parts := List.rdropWhile_append_rtakeWhile (p := drop) (l := text)
  exact ⟨text.rtakeWhile drop, parts.symm, fun c => List.mem_rtakeWhile_imp⟩

theorem trimWhile_split (drop : Char → Bool) (text : List Char) :
    ∃ front back, text = front ++ (trimWhile drop text ++ back) ∧
      (∀ c ∈ front, drop c = true) ∧ ∀ c ∈ back, drop c = true := by
  obtain ⟨back, split, after⟩ := trimEndWhile_split drop (text.dropWhile drop)
  refine ⟨text.takeWhile drop, back, ?_, fun c => List.mem_takeWhile_imp, after⟩
  rw [trimWhile, ← split, List.takeWhile_append_dropWhile]

/-- The two ends of a text are trimmed in any order. -/
theorem trimWhile_trimEndWhile (text : List Char) :
    trimWhile drop (trimEndWhile drop text) = trimWhile drop text := by
  have split := List.takeWhile_append_dropWhile (p := drop) (l := text)
  have blank : ∀ c ∈ text.takeWhile drop, drop c = true := fun c => List.mem_takeWhile_imp
  cases shape : text.dropWhile drop with
  | nil =>
    rw [shape, List.append_nil] at split
    have none : trimEndWhile drop text = [] := by
      rw [← split]
      exact trimEndWhile_append blank []
    rw [trimWhile, trimWhile, none, shape]
    rfl
  | cons c rest =>
    have solid : drop c = false := by
      have first := List.head?_dropWhile_not drop text
      simpa [shape] using first
    have kept : trimEndWhile drop text = text.takeWhile drop ++ c :: trimEndWhile drop rest := by
      rw [← trimEndWhile_append_cons solid, ← shape, split]
    have single : trimEndWhile drop (c :: rest) = c :: trimEndWhile drop rest :=
      trimEndWhile_append_cons solid [] rest
    have again : trimEndWhile drop (c :: trimEndWhile drop rest) = c :: trimEndWhile drop rest := by
      rw [← single]
      exact List.rdropWhile_idempotent drop (c :: rest)
    rw [trimWhile, trimWhile, shape, kept, List.dropWhile_append_of_pos blank,
      List.dropWhile_cons_of_neg (by simp [solid]), again, single]

end TerraDoc.Text
