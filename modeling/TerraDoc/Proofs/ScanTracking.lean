import TerraDoc.Proofs.RegularToken
import TerraDoc.Proofs.ScanPosition

namespace TerraDoc.Hcl

open Exponent

/-- The scan comes to a piece of a source in code, and leaves it in the same code. -/
structure Crossed (source : List Char) (slice : Slice) : Prop where
  code : ∃ braces, (stateAt source slice.start).mode = .code braces
  settled : (stateAt source slice.start).phase.isSettled = true
  mode : (stateAt source slice.stop).mode = (stateAt source slice.start).mode
  around : (stateAt source slice.stop).around = (stateAt source slice.start).around

/-- The scan has left a comment: a block comment with its last sign, a line comment with the line
feed after it. -/
def CommentLeft (s : State) (text : List Char) : Prop :=
  (s.phase = .start ∧ s.previous ≠ '.') ∨ (s.phase = .lineComment ∧ ∀ c ∈ text.head?, c = '\n')

/-- A text that begins with the end of a line with nothing on it. -/
def AtLineEnd (text : List Char) : Prop :=
  ∃ spaces rest, text = spaces ++ '\n' :: rest ∧ ∀ c ∈ spaces, isBlank c = true ∧ c ≠ '\n'

/-- How the scan goes past a comment, and how it goes past a heredoc. -/
def Token.Crossed (source : List Char) : Token → Prop
  | .comment slice => Hcl.Crossed source slice ∧
      CommentLeft (stateAt source slice.stop) (source.drop slice.stop)
  | .heredoc slice _ => Hcl.Crossed source slice ∧
      (stateAt source slice.stop).phase = .lastHeredocLine ∧ AtLineEnd (source.drop slice.stop)
  | _ => True

/-- Whether a token is neither a number nor one that the scan crosses. -/
def Token.isSimple : Token → Bool
  | .number _ | .comment _ | .heredoc _ _ => false
  | _ => true

theorem Token.isNumber_of_isSimple {token : Token} (simple : token.isSimple = true) :
    token.isNumber = false := by
  cases token with
  | number => cases simple
  | _ => rfl

theorem Token.crossed_of_isSimple {token : Token} {source : List Char}
    (simple : token.isSimple = true) : token.Crossed source := by
  cases token with
  | comment | heredoc => cases simple
  | _ => trivial

/-- What a token says about the scan of its source. -/
structure Recorded (source : List Char) (token : Token) : Prop where
  spans : token.slice.text <+: source.drop token.slice.start
  points : ∀ i, Occurs Point source i →
    token.isNumber = true ∨ i + 1 < token.slice.start ∨ token.slice.stop ≤ i
  reached : token.isNumber = true → ∀ i, token.slice.text[i]? = some '.' →
    Occurs Point source (token.slice.start + i)
  crossed : token.Crossed source

/-- A cursor whose tokens account for all that the scan of a normal source has met before it. -/
structure Tracks (source : List Char) (c : Cursor) : Prop where
  placed : c.rest = source.drop c.position
  normal : ∀ i < source.length, Occurs Unmarked source i
  recorded : ∀ token ∈ c.tokens, Recorded source token ∧ token.slice.stop ≤ c.position
  found : ∀ i < c.position, Occurs Point source i →
    ∃ slice, Token.number slice ∈ c.tokens ∧ slice.start ≤ i ∧ i + 1 < slice.stop
  opened : ∀ i < c.position, ¬ Occurs Unopened source i

/-- No number among the tokens ends after a position. -/
def NumbersBefore (position : Nat) (c : Cursor) : Prop :=
  ∀ slice, Token.number slice ∈ c.tokens → slice.stop ≤ position

namespace Tracks

variable {source text rest : List Char} {c : Cursor} {s t : State}

theorem numbersBefore (tracks : Tracks source c) : NumbersBefore c.position c :=
  fun _ member => (tracks.recorded _ member).2

theorem forward (tracks : Tracks source c) (split : c.rest = text ++ rest)
    (scanned : Scans Silent (stateAt source c.position) text rest t) :
    Tracks source ⟨c.position + text.length, rest, c.tokens⟩ := by
  have here : source.drop c.position = text ++ rest := by rw [← tracks.placed, split]
  refine ⟨?_, tracks.normal, ?_, ?_, ?_⟩
  · exact (drop_of_split text here).symm
  · intro token member
    obtain ⟨recorded, stop⟩ := tracks.recorded token member
    exact ⟨recorded, Nat.le_add_right_of_le stop⟩
  · intro i before point
    by_cases earlier : i < c.position
    · exact tracks.found i earlier point
    · have silent := scanned.occurs here (Nat.le_of_not_lt earlier) before
      exact absurd point (silent.not_of fun _ _ _ step => step.point)
  · intro i before
    by_cases earlier : i < c.position
    · exact tracks.opened i earlier
    · have silent := scanned.occurs here (Nat.le_of_not_lt earlier) before
      exact silent.not_of fun _ _ _ step => step.opened

theorem keep (tracks : Tracks source c) {token : Token} (other : token.isNumber = false)
    (spans : token.slice.text <+: source.drop token.slice.start)
    (stop : token.slice.stop ≤ c.position) (before : NumbersBefore token.slice.start c)
    (crossed : token.Crossed source) : Tracks source { c with tokens := token :: c.tokens } := by
  refine ⟨tracks.placed, tracks.normal, ?_, ?_, tracks.opened⟩
  · intro read member
    rcases List.mem_cons.mp member with rfl | old
    · refine ⟨⟨spans, fun i point => ?_, by simp [other], crossed⟩, stop⟩
      by_cases inside : i < c.position
      · obtain ⟨slice, member, -, after⟩ := tracks.found i inside point
        exact .inr (.inl (after.trans_le (before slice member)))
      · exact .inr (.inr (stop.trans (Nat.le_of_not_lt inside)))
    · exact tracks.recorded read old
  · intro i inside point
    obtain ⟨slice, member, around⟩ := tracks.found i inside point
    exact ⟨slice, List.mem_cons_of_mem token member, around⟩

theorem token (tracks : Tracks source c) (split : c.rest = text ++ rest)
    (scanned : Scans Silent (stateAt source c.position) text rest t) {make : Slice → Token}
    (slice : ∀ s, (make s).slice = s) (simple : ∀ s, (make s).isSimple = true) :
    Tracks source ⟨c.position + text.length, rest, make ⟨c.position, text⟩ :: c.tokens⟩ := by
  apply (tracks.forward split scanned).keep (Token.isNumber_of_isSimple (simple _))
  · rw [slice, ← tracks.placed, split]
    exact List.prefix_append text rest
  · rw [slice]
    exact le_rfl
  · rw [slice]
    exact tracks.numbersBefore
  · exact Token.crossed_of_isSimple (simple _)

/-- A number whose point, if it has one, is the only one that the scan meets in it. -/
theorem number (tracks : Tracks source c) (split : c.rest = text ++ rest)
    (points : ∀ i, c.position ≤ i → i < c.position + text.length →
      ¬ Occurs Unopened source i ∧
        (Occurs Point source i ↔ text[i - c.position]? = some '.'))
    (ends : text.getLast? ≠ some '.') :
    Tracks source
      ⟨c.position + text.length, rest, .number ⟨c.position, text⟩ :: c.tokens⟩ := by
  have here : source.drop c.position = text ++ rest := by rw [← tracks.placed, split]
  refine ⟨?_, tracks.normal, ?_, ?_, ?_⟩
  · exact (drop_of_split text here).symm
  · intro token member
    rcases List.mem_cons.mp member with rfl | old
    · refine ⟨⟨?_, fun _ _ => .inl rfl, fun _ i point => ?_, trivial⟩, le_rfl⟩
      · exact ⟨rest, here.symm⟩
      · have short : i < text.length := (List.getElem?_eq_some_iff.mp point).1
        refine (points (c.position + i) (Nat.le_add_right _ _) (by omega)).2.mpr ?_
        rwa [Nat.add_sub_cancel_left]
    · obtain ⟨recorded, stop⟩ := tracks.recorded token old
      exact ⟨recorded, Nat.le_add_right_of_le stop⟩
  · intro i (before : i < c.position + text.length) point
    by_cases earlier : i < c.position
    · obtain ⟨slice, member, around⟩ := tracks.found i earlier point
      exact ⟨slice, List.mem_cons_of_mem _ member, around⟩
    · have start := Nat.le_of_not_lt earlier
      have dot := (points i start before).2.mp point
      refine ⟨⟨c.position, text⟩, List.mem_cons_self, start, ?_⟩
      show i + 1 < c.position + text.length
      by_contra last
      rw [List.getLast?_eq_getElem?, show text.length - 1 = i - c.position by omega] at ends
      exact ends dot
  · intro i before
    by_cases earlier : i < c.position
    · exact tracks.opened i earlier
    · exact (points i (Nat.le_of_not_lt earlier) before).1

end Tracks

end TerraDoc.Hcl
