import TerraDoc.Hcl.Exponent
import TerraDoc.Text.Offset

/-!
The search for bare exponents in a text that is held in UTF-8. It goes on in rounds, each from one
byte offset to a later one, with a stack of what encloses the byte at hand. Where the text is cut or
a byte is read outside of the text, or the text is cut inside a character, the search breaks down.
-/

namespace TerraDoc.Hcl.ByteScan

open Exponent Text.Utf8

/-- The byte at an offset, and a NUL past the end. -/
def byteAt (text : List Char) (offset : Nat) : Char :=
  (bytes text)[offset]?.getD '\x00'

/-- Where the search is, what encloses the byte there, the innermost mode first, and the offsets of
the bare exponents before it. -/
structure Cursor where
  offset : Nat
  modes : List Mode
  found : List Nat
deriving DecidableEq, Repr

namespace Cursor

def initial : Cursor :=
  ⟨0, [.code 0], []⟩

def goTo (c : Cursor) (offset : Nat) : Cursor :=
  { c with offset }

end Cursor

/-- Where the line ends that a line comment stands on. -/
def lineEnd? (text : List Char) (start : Nat) : Option Nat :=
  if start ≤ byteLength text then
    some ((((bytes text).drop start).findIdx? (· == '\n')).elim (byteLength text) (start + ·))
  else none

def commentEnd? (text : List Char) (start : Nat) : Option Nat := do
  let (_, rest) ← splitAt? (start + 2) text
  return (find? ['*', '/'] rest).elim (byteLength text) (start + 2 + · + 2)

/-- Where the first line ends that is the marker of a heredoc with white space around it. -/
def closingEnd (text marker : List Char) (start : Nat) : List (List Char) → Nat
  | [] => byteLength text
  | line :: lines =>
      if Text.trim line = marker then start + byteLength line
      else closingEnd text marker (start + byteLength line) lines

/-- Where a heredoc ends. Signs that open none end where they end themselves. -/
def heredocEnd? (text : List Char) (start : Nat) : Option Nat := do
  let (_, rest) ← splitAt? (start + 2) text
  let head := (Text.after? ['-'] rest).getD rest
  let (marker, after) ← splitAt? ((bytes head).takeWhile isMarkerChar).length head
  match (Text.after? ['\r', '\n'] after).or (Text.after? ['\n'] after) with
  | none => return start + 2
  | some body =>
      if marker.isEmpty then return start + 2
      else
        let bodyStart := byteLength text - byteLength body
        let (_, body) ← splitAt? bodyStart text
        return closingEnd text marker bodyStart (Text.pieces body)

def digitsEnd (text : List Char) (start : Nat) : Nat :=
  start + (((bytes text).drop start).takeWhile Char.isDigit).length

/-- Where an exponent ends whose mark stands at an offset. -/
def powerEnd (text : List Char) (mark : Nat) : Nat :=
  digitsEnd text (if isSign (byteAt text (mark + 1)) then mark + 2 else mark + 1)

/-- Whether a bare exponent begins after digits that end at an offset. -/
def powerBegins (text : List Char) (stop : Nat) : Bool :=
  isMark (byteAt text stop) &&
    (byteAt text (if isSign (byteAt text (stop + 1)) then stop + 2 else stop + 1)).isDigit

def pointBefore? (text : List Char) : Nat → Option Bool
  | 0 => some false
  | offset + 1 => (bytes text)[offset]?.map (· == '.')

/-- Go past a number. A fraction and its exponent need nothing. -/
def numberRound? (text : List Char) (c : Cursor) : Option Cursor := do
  let afterPoint ← pointBefore? text c.offset
  let stop := digitsEnd text c.offset
  if !afterPoint && powerBegins text stop then
    return { c with offset := powerEnd text stop, found := c.found ++ [stop] }
  else if byteAt text stop == '.' && (byteAt text (stop + 1)).isDigit then
    let stop := digitsEnd text (stop + 1)
    return c.goTo (if isMark (byteAt text stop) then powerEnd text stop else stop)
  else return c.goTo stop

def wordLength : List Char → Nat
  | [] => 0
  | b :: rest =>
      if isWord b then wordLength rest + 1
      else match b, rest with
        | ':', ':' :: rest => wordLength rest + 2
        | _, _ => 0

def wordEnd (text : List Char) (start : Nat) : Nat :=
  start + wordLength ((bytes text).drop start)

/-- A round at a byte of a quoted string. -/
def quotedRound (text : List Char) (c : Cursor) (b : Char) : Cursor :=
  let next := byteAt text (c.offset + 1)
  let template := b == '$' || b == '%'
  if b = '\\' then c.goTo (c.offset + 2)
  else if template && next = b && byteAt text (c.offset + 2) = '{' then c.goTo (c.offset + 3)
  else if template && next = '{' then
    { c with offset := c.offset + 2, modes := .code 0 :: c.modes }
  else if b = '"' || b = '\n' then { c with offset := c.offset + 1, modes := c.modes.tail }
  else c.goTo (c.offset + 1)

/-- A round at a byte of code. The outermost code stays open. -/
def codeRound? (text : List Char) (c : Cursor) (braces : Nat) (around : List Mode) (b : Char) :
    Option Cursor :=
  let next := byteAt text (c.offset + 1)
  if b = '#' then (lineEnd? text c.offset).map c.goTo
  else if b = '/' && next = '/' then (lineEnd? text c.offset).map c.goTo
  else if b = '/' && next = '*' then (commentEnd? text c.offset).map c.goTo
  else if b = '"' then some { c with offset := c.offset + 1, modes := .quoted :: c.modes }
  else if b = '<' && next = '<' then (heredocEnd? text c.offset).map c.goTo
  else if b = '{' then
    some { c with offset := c.offset + 1, modes := .code (braces + 1) :: around }
  else if b = '}' then
    if braces = 0 && !around.isEmpty then
      some { c with offset := c.offset + 1, modes := around }
    else some { c with offset := c.offset + 1, modes := .code (braces - 1) :: around }
  else if b.isDigit then numberRound? text c
  else if startsWord b then some (c.goTo (wordEnd text c.offset))
  else some (c.goTo (c.offset + 1))

/-- A round in a mode that stands in others. -/
def round? (text : List Char) (c : Cursor) (mode : Mode) (around : List Mode) : Option Cursor := do
  let b ← (bytes text)[c.offset]?
  match mode with
  | .quoted => return quotedRound text c b
  | .code braces => codeRound? text c braces around b

variable {text : List Char} {c next : Cursor} {mode : Mode} {around : List Mode} {b : Char}
  {start stop : Nat}

theorem lt_of_byte (here : (bytes text)[start]? = some b) : start < byteLength text := by
  rw [← length_bytes]
  exact (List.getElem?_eq_some_iff.mp here).1

theorem drop_of_byte (here : (bytes text)[start]? = some b) :
    (bytes text).drop start = b :: (bytes text).drop (start + 1) := by
  obtain ⟨inside, rfl⟩ := List.getElem?_eq_some_iff.mp here
  exact List.drop_eq_getElem_cons inside

theorem lt_lineEnd? (here : (bytes text)[start]? = some b) (other : b ≠ '\n')
    (ends : lineEnd? text start = some stop) : start < stop := by
  have inside := lt_of_byte here
  rw [lineEnd?, if_pos (Nat.le_of_lt inside), drop_of_byte here, List.findIdx?_cons,
    if_neg (by simpa using other)] at ends
  cases Option.some.inj ends
  cases ((bytes text).drop (start + 1)).findIdx? (· == '\n') with
  | none => exact inside
  | some length =>
      simp only [Option.map_some, Option.elim_some]
      omega

theorem lt_commentEnd? (ends : commentEnd? text start = some stop) : start < stop := by
  obtain ⟨⟨front, rest⟩, cut, ends⟩ := Option.bind_eq_some_iff.mp ends
  obtain ⟨rfl, length⟩ := splitAt?_eq_some_iff.mp cut
  cases Option.some.inj ends
  cases find? ['*', '/'] rest with
  | none =>
      simp only [Option.elim_none, byteLength_append]
      omega
  | some length =>
      simp only [Option.elim_some]
      omega

theorem le_closingEnd {marker : List Char} {lines : List (List Char)}
    (whole : start + byteLength lines.flatten = byteLength text) :
    start ≤ closingEnd text marker start lines := by
  induction lines generalizing start with
  | nil => exact Nat.le_of_eq whole
  | cons line lines inductionHypothesis =>
      rw [List.flatten_cons, byteLength_append, ← Nat.add_assoc] at whole
      rw [closingEnd]
      split
      · exact Nat.le_add_right _ _
      · exact Nat.le_trans (Nat.le_add_right _ _) (inductionHypothesis whole)

theorem lt_heredocEnd? (ends : heredocEnd? text start = some stop) : start < stop := by
  obtain ⟨⟨front, rest⟩, cut, ends⟩ := Option.bind_eq_some_iff.mp ends
  obtain ⟨rfl, length⟩ := splitAt?_eq_some_iff.mp cut
  have head : ∃ dash, rest = dash ++ (Text.after? ['-'] rest).getD rest := by
    cases dashed : Text.after? ['-'] rest with
    | none => exact ⟨[], rfl⟩
    | some head => exact ⟨['-'], (Text.after?_eq_some_iff _ _ _).mp dashed⟩
  obtain ⟨dash, split⟩ := head
  obtain ⟨⟨marker, after⟩, cut, ends⟩ := Option.bind_eq_some_iff.mp ends
  obtain ⟨shape, -⟩ := splitAt?_eq_some_iff.mp cut
  dsimp only at ends
  split at ends
  · cases ends
    omega
  · rename_i body opened
    split at ends
    · cases ends
      omega
    · obtain ⟨⟨before, body'⟩, cut, ends⟩ := Option.bind_eq_some_iff.mp ends
      obtain ⟨whole, start'⟩ := splitAt?_eq_some_iff.mp cut
      cases ends
      have feed : ∃ feed, after = feed ++ body := by
        rcases Option.or_eq_some_iff.mp opened with found | ⟨-, found⟩
        · exact ⟨_, (Text.after?_eq_some_iff _ _ _).mp found⟩
        · exact ⟨_, (Text.after?_eq_some_iff _ _ _).mp found⟩
      obtain ⟨feed, rfl⟩ := feed
      have total : byteLength rest = byteLength dash + (byteLength marker +
          (byteLength feed + byteLength body)) := by
        rw [split, shape]
        simp
      have ended := @le_closingEnd (front ++ rest)
        (byteLength (front ++ rest) - byteLength body) marker (Text.pieces body') (by
          rw [Text.flatten_pieces, ← start', ← byteLength_append, ← whole])
      refine Nat.lt_of_lt_of_le ?_ ended
      rw [byteLength_append]
      omega

theorem le_digitsEnd (text : List Char) (start : Nat) : start ≤ digitsEnd text start :=
  Nat.le_add_right _ _

theorem lt_digitsEnd (here : (bytes text)[start]? = some b) (digit : b.isDigit = true) :
    start < digitsEnd text start := by
  rw [digitsEnd, drop_of_byte here, List.takeWhile_cons_of_pos digit, List.length_cons]
  omega

theorem lt_powerEnd (text : List Char) (mark : Nat) : mark < powerEnd text mark := by
  rw [powerEnd]
  refine Nat.lt_of_lt_of_le ?_ (le_digitsEnd text _)
  split <;> omega

theorem isWord_of_startsWord (word : startsWord b = true) : isWord b = true := by
  simp only [startsWord, Bool.or_eq_true] at word
  simp only [isWord, Char.isAlphanum, Bool.or_eq_true]
  rcases word with (letter | underscore) | high
  · exact .inl (.inl (.inl (.inl letter)))
  · exact .inl (.inl (.inr underscore))
  · exact .inr high

theorem lt_wordEnd (here : (bytes text)[start]? = some b) (word : startsWord b = true) :
    start < wordEnd text start := by
  rw [wordEnd, drop_of_byte here, wordLength.eq_def]
  simp only [if_pos (isWord_of_startsWord word)]
  omega

/-- What a round can make of the modes: it keeps them, enters one, leaves one that is not the last,
or counts braces. -/
inductive Turn (mode : Mode) (around : List Mode) : List Mode → Prop where
  | keep : Turn mode around (mode :: around)
  | enter (inner : Mode) : Turn mode around (inner :: mode :: around)
  | leave (inside : mode = .quoted ∨ around ≠ []) : Turn mode around around
  | brace (braces : Nat) : Turn mode around (.code braces :: around)

/-- A bare exponent that is found from an offset on, and passed: it begins after digits. -/
structure Finds (text : List Char) (start stop mark : Nat) : Prop where
  digits : mark = digitsEnd text start
  first : ∃ b, (bytes text)[start]? = some b ∧ b.isDigit = true
  begins : powerBegins text mark = true
  passed : mark < stop

/-- All that a round does: it goes on, turns to other modes, and finds one exponent or none. -/
structure Round (text : List Char) (c : Cursor) (mode : Mode) (around : List Mode)
    (next : Cursor) : Prop where
  onward : c.offset < next.offset
  turn : Turn mode around next.modes
  found : next.found = c.found ∨
    ∃ mark, next.found = c.found ++ [mark] ∧ Finds text c.offset next.offset mark

theorem Round.goTo (modes : c.modes = mode :: around) (later : c.offset < stop) :
    Round text c mode around (c.goTo stop) :=
  ⟨later, by rw [Cursor.goTo, modes]; exact .keep, .inl rfl⟩

theorem Round.of_numberRound? (modes : c.modes = mode :: around)
    (here : (bytes text)[c.offset]? = some b) (digit : b.isDigit = true)
    (taken : numberRound? text c = some next) : Round text c mode around next := by
  have first := lt_digitsEnd here digit
  obtain ⟨afterPoint, -, taken⟩ := Option.bind_eq_some_iff.mp taken
  dsimp only at taken
  split at taken
  · rename_i begins
    cases taken
    have power := lt_powerEnd text (digitsEnd text c.offset)
    refine ⟨Nat.lt_trans first power, by rw [modes]; exact .keep, .inr ⟨_, rfl, ?_⟩⟩
    exact ⟨rfl, ⟨b, here, digit⟩, (Bool.and_eq_true_iff.mp begins).2, power⟩
  · split at taken
    · cases taken
      apply Round.goTo modes
      have fraction := le_digitsEnd text (digitsEnd text c.offset + 1)
      have power := lt_powerEnd text (digitsEnd text (digitsEnd text c.offset + 1))
      split <;> omega
    · cases taken
      exact Round.goTo modes first

theorem Round.of_quotedRound (modes : c.modes = .quoted :: around) (b : Char) :
    Round text c .quoted around (quotedRound text c b) := by
  unfold quotedRound
  dsimp only
  split
  · exact .goTo modes (by omega)
  · split
    · exact .goTo modes (by omega)
    · split
      · exact ⟨Nat.lt_add_of_pos_right (by omega), by rw [modes]; exact .enter _, .inl rfl⟩
      · split
        · exact ⟨Nat.lt_succ_self _, by rw [modes]; exact .leave (.inl rfl), .inl rfl⟩
        · exact .goTo modes (Nat.lt_succ_self _)

theorem Round.of_codeRound? {braces : Nat} (modes : c.modes = .code braces :: around)
    (here : (bytes text)[c.offset]? = some b)
    (taken : codeRound? text c braces around b = some next) :
    Round text c (.code braces) around next := by
  have jump {stop? : Option Nat} (later : ∀ stop, stop? = some stop → c.offset < stop)
      (taken : stop?.map c.goTo = some next) : Round text c (.code braces) around next := by
    obtain ⟨stop, ends, rfl⟩ := Option.map_eq_some_iff.mp taken
    exact .goTo modes (later stop ends)
  have nextByte : c.offset < c.offset + 1 := Nat.lt_succ_self _
  unfold codeRound? at taken
  dsimp only at taken
  split at taken
  · rename_i hash
    exact jump (fun _ => lt_lineEnd? here (by rw [hash]; decide)) taken
  split at taken
  · rename_i slashes
    exact jump (fun _ => lt_lineEnd? here fun feed => by simp [feed] at slashes) taken
  split at taken
  · exact jump (fun _ => lt_commentEnd?) taken
  split at taken
  · cases taken
    exact ⟨nextByte, by rw [modes]; exact .enter _, .inl rfl⟩
  split at taken
  · exact jump (fun _ => lt_heredocEnd?) taken
  split at taken
  · cases taken
    exact ⟨nextByte, .brace _, .inl rfl⟩
  split at taken
  · split at taken
    · rename_i inside
      cases taken
      exact ⟨nextByte, .leave (.inr (by simpa using (Bool.and_eq_true_iff.mp inside).2)), .inl rfl⟩
    · cases taken
      exact ⟨nextByte, .brace _, .inl rfl⟩
  split at taken
  · rename_i digit
    exact .of_numberRound? modes here digit taken
  split at taken
  · rename_i word
    cases taken
    exact .goTo modes (lt_wordEnd here word)
  · cases taken
    exact .goTo modes nextByte

theorem round?_effect (modes : c.modes = mode :: around)
    (taken : round? text c mode around = some next) : Round text c mode around next := by
  obtain ⟨b, here, taken⟩ := Option.bind_eq_some_iff.mp taken
  cases mode with
  | quoted =>
      cases taken
      exact .of_quotedRound modes b
  | code braces => exact .of_codeRound? modes here taken

/-- Rounds from a cursor to the end of the text. The search stops early if no mode is left. -/
def run? (text : List Char) (c : Cursor) : Option Cursor :=
  if c.offset < byteLength text then
    match modes : c.modes with
    | [] => some c
    | mode :: around =>
        match taken : round? text c mode around with
        | some next =>
            have := (round?_effect modes taken).onward
            run? text next
        | none => none
  else some c
termination_by byteLength text - c.offset

def offsets? (text : List Char) : Option (List Nat) :=
  (run? text .initial).map Cursor.found

/-- The text from an offset on, with `.0` before each of the offsets after it. -/
def insertFrom? (text : List Char) (last : Nat) : List Nat → Option (List Char)
  | [] => (splitAt? last text).map Prod.snd
  | offset :: later => do
      let part ← slice? last offset text
      return part ++ ['.', '0'] ++ (← insertFrom? text offset later)

def normalize? (text : List Char) : Option (List Char) := do
  let offsets ← offsets? text
  if offsets.isEmpty then return text else insertFrom? text 0 offsets

end TerraDoc.Hcl.ByteScan
