import TerraDoc.Text.Blank
import TerraDoc.Text.Line

/-!
Numbers with an exponent but no fraction. The grammar of expressions wants a fraction before an
exponent, so `1e3` is spelled `1.0e3` before a source is read. The source is scanned one character
at a time, with enough state to know that a digit does not stand in a string, a heredoc, a comment
or a name.
-/

namespace TerraDoc.Hcl.Exponent

/-- What encloses the characters at hand: code, with its open braces, or a quoted string. -/
inductive Mode where
  | code (braces : Nat)
  | quoted
deriving DecidableEq, Repr

/-- What the characters at hand are part of, within their mode. -/
inductive Phase where
  | start
  /-- So many characters are already accounted for. -/
  | skip (count : Nat) (following : Phase)
  | lineComment
  | blockComment
  | word
  /-- Digits before a point or an exponent; those of an index stand after a point. -/
  | digits (afterPoint : Bool)
  | fraction
  | power
  /-- The body of a heredoc, at the start of a line or inside one. -/
  | heredoc (marker : List Char) (fresh : Bool)
  | lastHeredocLine
deriving DecidableEq, Repr

/-- The mode at hand, those around it, and the character before. -/
structure State where
  mode : Mode
  around : List Mode
  phase : Phase
  previous : Char
deriving DecidableEq, Repr

def State.initial : State :=
  ⟨.code 0, [], .start, ' '⟩

namespace State

def goOn (s : State) (phase : Phase) : State :=
  { s with phase }

def enter (s : State) (mode : Mode) (phase : Phase) : State :=
  { s with mode, around := s.mode :: s.around, phase }

/-- Back to the mode around; the outermost code stays. -/
def leave (s : State) : State :=
  match s.around with
  | [] => { s with mode := .code 0, phase := .start }
  | mode :: around => { s with mode, around, phase := .start }

end State

def isWord (c : Char) : Bool :=
  c.isAlphanum || c == '_' || c == '-' || 0x80 ≤ c.toNat

def startsWord (c : Char) : Bool :=
  c.isAlpha || c == '_' || 0x80 ≤ c.toNat

def isMark (c : Char) : Bool :=
  c == 'e' || c == 'E'

def isSign (c : Char) : Bool :=
  c == '+' || c == '-'

def isMarkerChar (c : Char) : Bool :=
  c.isAlphanum || c == '_' || c == '-'

/-- Whether a digit comes next, perhaps after a sign. -/
def powerFollows : List Char → Bool
  | c :: d :: _ => c.isDigit || (isSign c && d.isDigit)
  | [c] => c.isDigit
  | [] => false

def signFollows : List Char → Bool
  | c :: _ => isSign c
  | [] => false

def digitFollows : List Char → Bool
  | c :: _ => c.isDigit
  | [] => false

/-- The marker of a heredoc that opens after `<<`, and how many characters lead up to its body. -/
def heredocOpening? (text : List Char) : Option (List Char × Nat) :=
  let (dash, text) := match text with
    | '-' :: rest => (1, rest)
    | text => (0, text)
  let marker := text.takeWhile isMarkerChar
  if marker.isEmpty then none
  else match text.dropWhile isMarkerChar with
    | '\r' :: '\n' :: _ => some (marker, dash + marker.length + 2)
    | '\n' :: _ => some (marker, dash + marker.length + 1)
    | _ => none

def quotedStep (s : State) (c : Char) (rest : List Char) : State :=
  match c, rest with
  | '\\', _ => s.goOn (.skip 1 .start)
  | '$', '$' :: '{' :: _ => s.goOn (.skip 2 .start)
  | '%', '%' :: '{' :: _ => s.goOn (.skip 2 .start)
  | '$', '{' :: _ => s.enter (.code 0) (.skip 1 .start)
  | '%', '{' :: _ => s.enter (.code 0) (.skip 1 .start)
  | '"', _ => s.leave
  | '\n', _ => s.leave
  | _, _ => s.goOn .start

/-- One character of code that does not go on with what came before it. -/
def codeStep (s : State) (braces : Nat) (c : Char) (rest : List Char) : State :=
  match c, rest with
  | '#', _ => s.goOn .lineComment
  | '/', '/' :: _ => s.goOn .lineComment
  | '/', '*' :: _ => s.goOn (.skip 1 .blockComment)
  | '"', _ => s.enter .quoted .start
  | '<', '<' :: after =>
      match heredocOpening? after with
      | some (marker, length) => s.goOn (.skip (length + 1) (.heredoc marker true))
      | none => s.goOn (.skip 1 .start)
  | '{', _ => { s with mode := .code (braces + 1), phase := .start }
  | '}', _ =>
      if braces = 0 && !s.around.isEmpty then s.leave
      else { s with mode := .code (braces - 1), phase := .start }
  | c, _ =>
      if c.isDigit then s.goOn (.digits (s.previous == '.'))
      else if startsWord c then s.goOn .word
      else s.goOn .start

def freshStep (s : State) (c : Char) (rest : List Char) : State :=
  match s.mode with
  | .quoted => quotedStep s c rest
  | .code braces => codeStep s braces c rest

/-- The state after a character, and whether a bare exponent begins with it. -/
def phaseStep (s : State) (c : Char) (rest : List Char) : State × Bool :=
  match s.phase with
  | .start => (freshStep s c rest, false)
  | .skip 0 following => (s.goOn following, false)
  | .skip 1 following => (s.goOn following, false)
  | .skip (count + 2) following => (s.goOn (.skip (count + 1) following), false)
  | .lineComment => if c = '\n' then (freshStep s c rest, false) else (s, false)
  | .blockComment =>
      match c, rest with
      | '*', '/' :: _ => (s.goOn (.skip 1 .start), false)
      | _, _ => (s, false)
  | .word =>
      if isWord c then (s, false)
      else match c, rest with
        | ':', ':' :: _ => (s.goOn (.skip 1 .word), false)
        | _, _ => (freshStep s c rest, false)
  | .digits afterPoint =>
      if c.isDigit then (s, false)
      else if !afterPoint && isMark c && powerFollows rest then
        (s.goOn (if signFollows rest then .skip 1 .power else .power), true)
      else if c = '.' && digitFollows rest then (s.goOn .fraction, false)
      else (freshStep s c rest, false)
  | .fraction =>
      if c.isDigit then (s, false)
      else if isMark c then
        (s.goOn (if signFollows rest then .skip 1 .power else .power), false)
      else (freshStep s c rest, false)
  | .power => if c.isDigit then (s, false) else (freshStep s c rest, false)
  | .heredoc marker fresh =>
      if fresh && Text.trim ((c :: rest).takeWhile (· != '\n')) == marker then
        (s.goOn (if c = '\n' then .start else .lastHeredocLine), false)
      else (s.goOn (.heredoc marker (c == '\n')), false)
  | .lastHeredocLine => (s.goOn (if c = '\n' then .start else .lastHeredocLine), false)

def step (s : State) (c : Char) (rest : List Char) : State × Bool :=
  let (next, bare) := phaseStep s c rest
  ({ next with previous := c }, bare)

/-- The positions of bare exponents, scanning on from a state at a position. -/
def positionsFrom (s : State) (position : Nat) : List Char → List Nat
  | [] => []
  | c :: rest =>
      let (next, bare) := step s c rest
      if bare then position :: positionsFrom next (position + 1) rest
      else positionsFrom next (position + 1) rest

/-- Where the source has an exponent that follows a digit without a fraction. -/
def positions (source : List Char) : List Nat :=
  positionsFrom .initial 0 source

/-- The source with `.0` before every bare exponent, scanning on from a state. -/
def normalizeFrom (s : State) : List Char → List Char
  | [] => []
  | c :: rest =>
      let (next, bare) := step s c rest
      if bare then '.' :: '0' :: c :: normalizeFrom next rest
      else c :: normalizeFrom next rest

def normalize (source : List Char) : List Char :=
  normalizeFrom .initial source

end TerraDoc.Hcl.Exponent
