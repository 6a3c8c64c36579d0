import TerraDoc.Proofs.CodeAlignment
import TerraDoc.Proofs.ExponentElision

/-!
The search for bare exponents is safe on every text. Its rounds go on to the end, it cuts the text
between characters only, and what it finds are bare exponents.
-/

namespace TerraDoc

open Text.Utf8

namespace Hcl.ByteScan

open Exponent

variable {text : List Char} {c : Cursor} {mode : Mode} {around modes : List Mode}
  {start stop offset : Nat}

/-- An exponent at an offset, with a digit directly before it and its first digit, perhaps behind a
sign, directly after it. -/
structure BareExponent (text : List Char) (offset : Nat) : Prop where
  digit : ∃ before, before + 1 = offset ∧ (byteAt text before).isDigit = true
  mark : byteAt text offset = 'e' ∨ byteAt text offset = 'E'
  power : (byteAt text (offset + 1)).isDigit = true ∨
    ((byteAt text (offset + 1) = '+' ∨ byteAt text (offset + 1) = '-') ∧
      (byteAt text (offset + 2)).isDigit = true)

/-- The cursors that the search can come to. -/
inductive Reached (text : List Char) : Cursor → Prop where
  | initial : Reached text .initial
  | round {c next : Cursor} {mode : Mode} {around : List Mode} (before : Reached text c)
      (inside : c.offset < byteLength text) (modes : c.modes = mode :: around)
      (taken : round? text c mode around = some next) : Reached text next

/-- What holds between the rounds. -/
structure Sound (text : List Char) (c : Cursor) : Prop where
  outermost : ∃ inner braces, c.modes = inner ++ [.code braces]
  increasing : c.found.Pairwise (· < ·)
  behind : ∀ offset ∈ c.found, offset < c.offset
  bare : ∀ offset ∈ c.found, BareExponent text offset

theorem Finds.bare (finds : Finds text start stop offset) : BareExponent text offset := by
  obtain ⟨b, here, digit⟩ := finds.first
  obtain ⟨mark, power⟩ := Bool.and_eq_true_iff.mp finds.begins
  refine ⟨?_, isMark_cases mark, ?_⟩
  · have ends : offset = start + _ := finds.digits
    have later : start < start + _ := lt_digitsEnd here digit
    have split := List.takeWhile_append_dropWhile (p := Char.isDigit) (l := (bytes text).drop start)
    have digits : ∀ d ∈ ((bytes text).drop start).takeWhile Char.isDigit, d.isDigit = true :=
      fun d member => List.mem_takeWhile_imp member
    generalize ((bytes text).drop start).takeWhile Char.isDigit = front at *
    obtain ⟨k, length⟩ : ∃ k, front.length = k + 1 := Nat.exists_eq_add_one.mpr (by omega)
    have within : k < front.length := by omega
    refine ⟨start + k, by omega, ?_⟩
    rw [byteAt, ← List.getElem?_drop, ← split, List.getElem?_append_left within,
      List.getElem?_eq_getElem within]
    exact digits _ (List.getElem_mem within)
  · by_cases sign : isSign (byteAt text (offset + 1)) = true
    · rw [if_pos sign] at power
      exact .inr ⟨isSign_cases sign, power⟩
    · rw [if_neg sign] at power
      exact .inl power

theorem Turn.outermost (turn : Turn mode around modes)
    (outermost : ∃ inner braces, mode :: around = inner ++ [.code braces]) :
    ∃ inner braces, modes = inner ++ [.code braces] := by
  obtain ⟨inner, braces, shape⟩ := outermost
  cases turn with
  | keep => exact ⟨inner, braces, shape⟩
  | enter mode' => exact ⟨mode' :: inner, braces, congrArg (mode' :: ·) shape⟩
  | leave inside =>
    cases inner with
    | nil =>
      obtain ⟨rfl, rfl⟩ := List.cons.inj shape
      rcases inside with quoted | around
      · cases quoted
      · exact absurd rfl around
    | cons _ inner => exact ⟨inner, braces, (List.cons.inj shape).2⟩
  | brace count =>
    cases inner with
    | nil => exact ⟨[], count, by rw [(List.cons.inj shape).2]; rfl⟩
    | cons _ inner => exact ⟨.code count :: inner, braces, by rw [(List.cons.inj shape).2]; rfl⟩

/-- A round keeps code outermost, and finds at most one exponent, behind those before it. -/
theorem Round.sound {next : Cursor} (round : Round text c mode around next)
    (shape : c.modes = mode :: around) (sound : Sound text c) : Sound text next := by
  have outermost := round.turn.outermost (shape ▸ sound.outermost)
  rcases round.found with same | ⟨mark, more, finds⟩
  · refine ⟨outermost, same ▸ sound.increasing, ?_, same ▸ sound.bare⟩
    exact fun offset member => Nat.lt_trans (sound.behind offset (same ▸ member)) round.onward
  · have later : c.offset ≤ mark := finds.digits ▸ le_digitsEnd text c.offset
    refine ⟨outermost, ?_, ?_, ?_⟩
    · rw [more, List.pairwise_append]
      refine ⟨sound.increasing, List.pairwise_singleton _ _, fun offset member other last => ?_⟩
      rw [List.mem_singleton.mp last]
      exact Nat.lt_of_lt_of_le (sound.behind offset member) later
    · rw [more]
      intro offset member
      rcases List.mem_append.mp member with before | last
      · exact Nat.lt_trans (sound.behind offset before) round.onward
      · exact List.mem_singleton.mp last ▸ finds.passed
    · rw [more]
      intro offset member
      rcases List.mem_append.mp member with before | last
      · exact sound.bare offset before
      · exact List.mem_singleton.mp last ▸ finds.bare

theorem Reached.sound (reached : Reached text c) : Sound text c := by
  induction reached with
  | initial => exact ⟨⟨[], 0, rfl⟩, .nil, by simp [Cursor.initial], by simp [Cursor.initial]⟩
  | round _ _ modes taken ih => exact (round?_effect modes taken).sound modes ih

theorem Reached.aligned (reached : Reached text c) : Aligned text c := by
  induction reached with
  | initial => exact .initial text
  | round before inside modes taken ih =>
    obtain ⟨mode, around, next, modes', taken', aligned⟩ := ih.round before.sound.outermost inside
    obtain ⟨rfl, rfl⟩ := List.cons.inj (modes.symm.trans modes')
    rwa [Option.some.inj (taken.symm.trans taken')]

theorem Reached.next (reached : Reached text c) (inside : c.offset < byteLength text) :
    ∃ mode around next, c.modes = mode :: around ∧ round? text c mode around = some next ∧
      c.offset < next.offset ∧ Reached text next := by
  obtain ⟨mode, around, next, modes, taken, -⟩ :=
    reached.aligned.round reached.sound.outermost inside
  exact ⟨mode, around, next, modes, taken, (round?_effect modes taken).onward,
    .round reached inside modes taken⟩

theorem Reached.run? (reached : Reached text c) :
    ∃ last, run? text c = some last ∧ Reached text last ∧ byteLength text ≤ last.offset := by
  -- Every round goes on, so what is left of the text gets shorter.
  induction left : byteLength text - c.offset using Nat.strongRecOn generalizing c with
  | ind n ih =>
    subst left
    rw [ByteScan.run?]
    split
    · rename_i inside
      obtain ⟨mode, around, next, modes, taken, onward, later⟩ := reached.next inside
      split
      · rename_i empty
        rw [empty] at modes
        cases modes
      · rename_i mode' around' modes'
        obtain ⟨rfl, rfl⟩ := List.cons.inj (modes.symm.trans modes')
        split
        · rename_i next' taken'
          obtain rfl := Option.some.inj (taken.symm.trans taken')
          exact ih _ (by omega) later rfl
        · rename_i broken
          rw [taken] at broken
          cases broken
    · rename_i ended
      exact ⟨c, rfl, reached, Nat.le_of_not_lt ended⟩

/-- What is inserted at the offsets of exponents is what the running scan inserts. -/
theorem insertFrom?_positions (s : State) (front pending rest : List Char) {p : Nat}
    (split : text = front ++ (pending ++ rest)) (place : p = (front ++ pending).length) :
    insertFrom? text (byteLength front) ((positionsFrom s p rest).map (offsetAt text)) =
      some (pending ++ normalizeFrom s rest) := by
  -- Pending is what the scan has passed since the last exponent, which no slice has taken yet.
  induction rest generalizing s front pending p with
  | nil =>
    rw [positionsFrom, List.map_nil, insertFrom?, split, splitAt?_append]
    rfl
  | cons c rest ih =>
    cases taken : step s c rest with
    | mk next bare =>
      cases bare with
      | true =>
        have here : offsetAt text p = byteLength front + byteLength pending := by
          rw [offsetAt, split, place, ← List.append_assoc, List.take_left, byteLength_append]
        have part : slice? (byteLength front) (offsetAt text p) text = some pending := by
          rw [here, split]
          exact slice?_append front pending (c :: rest)
        have later := @ih next (front ++ pending) [c] (p + 1) (by rw [split]; simp)
          (by rw [place]; simp [Nat.add_assoc])
        rw [byteLength_append, ← here] at later
        simp only [positionsFrom, normalizeFrom, taken, if_true, List.map_cons, insertFrom?, part]
        rw [later]
        simp
      | false =>
        have later := @ih next front (pending ++ [c]) (p + 1) (by rw [split]; simp)
          (by rw [place]; simp [Nat.add_assoc])
        simp only [positionsFrom, normalizeFrom, taken]
        simpa using later

theorem offsets?_eq (text : List Char) :
    offsets? text = some ((positions text).map (offsetAt text)) := by
  obtain ⟨last, ran, reached, ended⟩ := (@Reached.initial text).run?
  rw [offsets?, ran, ← reached.aligned.found_eq ended]
  rfl

theorem normalize?_eq (text : List Char) : normalize? text = some (normalize text) := by
  have inserted : insertFrom? text 0 ((positions text).map (offsetAt text)) =
      some (normalize text) := insertFrom?_positions .initial [] [] text rfl rfl
  rw [normalize?, offsets?_eq]
  generalize (positions text).map (offsetAt text) = offsets at inserted
  cases offsets with
  | nil => simpa [insertFrom?, splitAt?] using inserted
  | cons offset later => exact inserted

theorem filter_normalizeFrom (test : Char → Bool) (point : test '.' = false)
    (zero : test '0' = false) (s : State) (text : List Char) :
    (normalizeFrom s text).filter test = text.filter test := by
  induction text generalizing s with
  | nil => rfl
  | cons c text ih =>
    cases taken : step s c text with
    | mk next bare =>
      cases bare <;> simp [normalizeFrom, taken, List.filter_cons, point, zero, ih]

/-- Whatever the text, the search never breaks down. Code stays outermost, every round inside the
text can be made and goes on, and the search ends at the end of the text. What it finds are bare
exponents in their order, the same as the running scan finds. So the normaliser returns a text,
which has `.0` at some places more than the source and the same line breaks. -/
theorem search_safe (text : List Char) :
    (∀ c, Reached text c → (∃ inner braces, c.modes = inner ++ [.code braces]) ∧
      (c.offset < byteLength text → ∃ mode around next, c.modes = mode :: around ∧
        round? text c mode around = some next ∧ c.offset < next.offset ∧ Reached text next)) ∧
    (∃ last, run? text .initial = some last ∧ Reached text last ∧
      byteLength text ≤ last.offset ∧ offsets? text = some last.found ∧
      last.found = (positions text).map (offsetAt text) ∧ last.found.Pairwise (· < ·) ∧
      ∀ offset ∈ last.found, BareExponent text offset) ∧
    normalize? text = some (normalize text) ∧
    (∀ place ∈ insertions text, ['.', '0'] <+: (normalize text).drop place) ∧
    elide (insertions text) (normalize text) = text ∧
    (normalize text).filter (fun c => c == '\n' || c == '\r') =
      text.filter (fun c => c == '\n' || c == '\r') := by
  obtain ⟨last, ran, reached, ended⟩ := (@Reached.initial text).run?
  have found : offsets? text = some last.found := by rw [offsets?, ran, Option.map_some]
  exact ⟨fun c reached => ⟨reached.sound.outermost, reached.next⟩,
    ⟨last, ran, reached, ended, found, reached.aligned.found_eq ended, reached.sound.increasing,
      reached.sound.bare⟩,
    normalize?_eq text, fun place member => ((normalize_occurs text).2 place member).2,
    elide_insertions text, filter_normalizeFrom _ rfl rfl .initial text⟩

/-- A backslash before a character of two bytes, an exponent in a template, one in a heredoc, and
one with a sign. -/
def mixedText : List Char :=
  "\"\\é$\x7b1e3\x7d\" <<E\n1e1\nE\n5e-6".toList

theorem search_safe_mixedText :
    (∃ next, round? mixedText .initial (.code 0) [] = some next ∧ 0 < next.offset) ∧
      (∃ last, run? mixedText .initial = some last ∧ last.found = [7, 23]) ∧
      normalize? mixedText = some "\"\\é$\x7b1.0e3\x7d\" <<E\n1e1\nE\n5.0e-6".toList := by
  obtain ⟨rounds, ⟨last, ran, -, -, -, found, -⟩, normalized, -⟩ := search_safe mixedText
  refine ⟨?_, ⟨last, ran, found.trans (by decide +kernel)⟩, normalized.trans (by decide +kernel)⟩
  obtain ⟨mode, around, next, modes, taken, onward, -⟩ :=
    (rounds .initial .initial).2 (by decide +kernel)
  obtain ⟨rfl, rfl⟩ := List.cons.inj modes
  exact ⟨next, taken, onward⟩

end Hcl.ByteScan

end TerraDoc
