import TerraDoc.Yaml.Tag

/-!
The tokens of a YAML text. Indentation becomes tokens that open and close blocks. Whether a scalar
is a key shows only at the colon after it, so its tokens are put in front of it there.
-/

namespace TerraDoc.Yaml

inductive Token where
  | directive (directive : Directive)
  | documentStart
  | documentEnd
  | blockSequence
  | blockMapping
  | blockEnd
  | flowSequence
  | flowSequenceEnd
  | flowMapping
  | flowMappingEnd
  | item
  | comma
  | key
  | value
  | anchor (name : List Char)
  | alias (name : List Char)
  | tag (handle : Option (List Char))
  | scalar (text : List Char)
deriving DecidableEq, Repr

/-- A place where a key may have started: the text from there on, its column, how many tokens were
before it, and whether it has to turn out to be a key. -/
structure KeyStart where
  text : List Char
  column : Nat
  tokens : Nat
  required : Bool

/-- What was read of a text, of which the rest is left. -/
def readOf (text rest : List Char) : List Char :=
  text.take (text.length - rest.length)

/-- A key cannot go on over a line break, nor be longer than 1024 characters. -/
def KeyStart.isOver (start : KeyStart) (rest : List Char) : Bool :=
  let read := readOf start.text rest
  read.any isBreak || 1024 < read.length

/-- A place in a text, and what the text before it came to. -/
structure Scan where
  rest : List Char
  column : Nat
  /-- The last token first. -/
  tokens : List Token
  /-- The columns of the open blocks, the innermost first. -/
  indents : List Nat
  /-- Where the key may have started that a colon would end. -/
  key : Option KeyStart
  /-- The same outside the brackets, for each open bracket. -/
  outer : List (Option KeyStart)
  /-- Whether a key may start here. -/
  keyAllowed : Bool

namespace Scan

/-- The beginning of a text. A byte order mark takes a column. -/
def start (text : List Char) : Scan :=
  let marked := text.head? = some '\ufeff'
  { rest := if marked then text.drop 1 else text
    column := if marked then 1 else 0
    tokens := []
    indents := []
    key := none
    outer := []
    keyAllowed := true }

def flow (scan : Scan) : Bool :=
  !scan.outer.isEmpty

def emit (token : Token) (scan : Scan) : Scan :=
  { scan with tokens := token :: scan.tokens }

def goTo (rest : List Char) (scan : Scan) : Scan :=
  let read := readOf scan.rest rest
  let column :=
    if read.any isBreak then (read.reverse.takeWhile (!isBreak ·)).length
    else scan.column + read.length
  { scan with rest, column }

def sign (token : Token) (length : Nat) (scan : Scan) : Scan :=
  (scan.goTo (scan.rest.drop length)).emit token

def allowKey (allowed : Bool) (scan : Scan) : Scan :=
  { scan with keyAllowed := allowed }

/-- The rest of a text after blanks, comments and empty lines; whether a key may start there; and
the column. Tabs count as blanks only where no key may start. -/
def skipGap (flow : Bool) : (allowed comment : Bool) → Nat → List Char → Bool × Nat × List Char
  | allowed, _, column, [] => (allowed, column, [])
  | allowed, comment, column, c :: rest =>
      if isBreak c then skipGap flow (allowed || !flow) false 0 rest
      else if comment || c = '#' then skipGap flow allowed true (column + 1) rest
      else if c = ' ' || (c = '\t' && (flow || !allowed)) then
        skipGap flow allowed false (column + 1) rest
      else (allowed, column, c :: rest)

/-- A key that cannot go on any more is none; it fails if it has to be one. -/
def dropOver (rest : List Char) : Option KeyStart → Option (Option KeyStart)
  | none => some none
  | some start =>
      if start.isOver rest then if start.required then none else some none
      else some (some start)

/-- Close the blocks that are deeper than a column. Inside brackets there are none. -/
def closeBlocks (column : Option Nat) (scan : Scan) : Scan :=
  if scan.flow then scan
  else
    let kept := scan.indents.dropWhile fun indent => column.elim true (· < indent)
    let closed := List.replicate (scan.indents.length - kept.length) Token.blockEnd
    { scan with indents := kept, tokens := closed ++ scan.tokens }

def advance (scan : Scan) : Option Scan := do
  let (keyAllowed, column, rest) := skipGap scan.flow scan.keyAllowed false scan.column scan.rest
  let key ← dropOver rest scan.key
  let outer ← scan.outer.mapM (dropOver rest)
  return { scan with keyAllowed, column, rest, key, outer }.closeBlocks (some column)

def forgetKey (scan : Scan) : Option Scan :=
  if scan.key.any (·.required) then none else some { scan with key := none }

def noteKey (scan : Scan) : Option Scan := do
  if scan.keyAllowed then
    let scan ← scan.forgetKey
    let required := !scan.flow && scan.indents.head? = some scan.column
    return { scan with key := some ⟨scan.rest, scan.column, scan.tokens.length, required⟩ }
  else return scan

def insertToken (position : Nat) (token : Token) (scan : Scan) : Scan :=
  let later := scan.tokens.length - position
  { scan with tokens := scan.tokens.take later ++ token :: scan.tokens.drop later }

/-- Open a block at a column, unless one is open there. Inside brackets none is opened. -/
def openBlock (token : Token) (column position : Nat) (scan : Scan) : Scan :=
  if !scan.flow && scan.indents.head?.all (· < column) then
    { scan with indents := column :: scan.indents }.insertToken position token
  else scan

/-- Open a block at this place, where a key has to be allowed. -/
def openHere (token : Token) (scan : Scan) : Option Scan :=
  if scan.flow then some scan
  else if scan.keyAllowed then some (scan.openBlock token scan.column scan.tokens.length)
  else none

def openBracket (token : Token) (scan : Scan) : Option Scan := do
  let scan ← scan.noteKey
  return { scan with key := none, outer := scan.key :: scan.outer, keyAllowed := true }.sign token 1

def closeBracket (token : Token) (scan : Scan) : Option Scan := do
  let scan ← scan.forgetKey
  let scan := match scan.outer with
    | key :: outer => { scan with key, outer }
    | [] => scan
  return (scan.allowKey false).sign token 1

/-- A colon: it ends the key that started before it, or stands for an empty one. -/
def colon (scan : Scan) : Option Scan :=
  match scan.key with
  | some start =>
      let scan := scan.insertToken start.tokens .key
      let scan := scan.openBlock .blockMapping start.column start.tokens
      some ({ scan with key := none, keyAllowed := false }.sign .value 1)
  | none => do
      let scan ← scan.openHere .blockMapping
      return (scan.allowKey (!scan.flow)).sign .value 1

/-- A mark between documents, or a directive before them. -/
def outside (scan : Scan) : Option Scan := do
  return ((← (scan.closeBlocks none).forgetKey).allowKey false)

/-- Whether the name of an anchor may end here. -/
def nameEnds (text : List Char) : Bool :=
  blankFollows text || text.head?.any fun c => "?:,]\x7d%@`".contains c

/-- An anchor or alias: a name after a sign. -/
def named (token : List Char → Token) (scan : Scan) : Option Scan := do
  let scan ← scan.noteKey
  let text := scan.rest.drop 1
  let name := text.takeWhile isWord
  let rest := text.dropWhile isWord
  if name.isEmpty || !nameEnds rest then none
  else return ((scan.goTo rest).emit (token name)).allowKey false

def tagged (scan : Scan) : Option Scan := do
  let scan ← scan.noteKey
  let (handle, rest) ← readTag scan.rest
  if tagEnds scan.flow rest then return ((scan.goTo rest).emit (.tag handle)).allowKey false
  else none

def quoted (read : Fold → Nat → List Char → Option (List Char × List Char)) (scan : Scan) :
    Option Scan := do
  let scan ← scan.noteKey
  let (text, rest) ← read .none (scan.column + 1) (scan.rest.drop 1)
  return ((scan.goTo rest).emit (.scalar text)).allowKey false

def block (literal : Bool) (scan : Scan) : Option Scan := do
  let scan ← scan.forgetKey
  let (text, rest) ← readBlock literal scan.indents.head? (scan.rest.drop 1)
  return ((scan.goTo rest).emit (.scalar text)).allowKey true

def startsPlain (flow : Bool) : List Char → Bool
  | [] => false
  | c :: rest =>
      let first := isBlank c || isBreak c || "-?:,[]\x7b\x7d#&*!|>'\"%@`".contains c
      !first || (c = '-' && !rest.head?.any isBlank) ||
        (!flow && (c = '?' || c = ':') && !blankFollows rest)

def plain (scan : Scan) : Option Scan := do
  if startsPlain scan.flow scan.rest then
    let scan ← scan.noteKey
    let indent := scan.indents.head?.elim 0 (· + 1)
    let plain ← readPlain scan.flow indent .none scan.column scan.rest
    return ((scan.goTo plain.rest).emit (.scalar plain.text)).allowKey plain.broken
  else none

def token (scan : Scan) : Option Scan :=
  match scan.rest with
  | [] => none
  | c :: rest =>
      if scan.column = 0 && c = '%' then do
        let scan ← scan.outside
        let (directive, rest) ← readDirective rest
        return (scan.goTo rest).emit (.directive directive)
      else if scan.column = 0 && documentMark scan.rest then do
        return (← scan.outside).sign (if c = '-' then .documentStart else .documentEnd) 3
      else
        let signFollows := scan.flow || blankFollows rest
        match c with
        | '[' => scan.openBracket .flowSequence
        | '{' => scan.openBracket .flowMapping
        | ']' => scan.closeBracket .flowSequenceEnd
        | '}' => scan.closeBracket .flowMappingEnd
        | ',' => do return ((← scan.forgetKey).allowKey true).sign .comma 1
        | '-' =>
            if blankFollows rest then do
              let scan ← (← scan.openHere .blockSequence).forgetKey
              return (scan.allowKey true).sign .item 1
            else scan.plain
        | '?' =>
            if signFollows then do
              let scan ← (← scan.openHere .blockMapping).forgetKey
              return (scan.allowKey (!scan.flow)).sign .key 1
            else scan.plain
        | ':' => if signFollows then scan.colon else scan.plain
        | '*' => scan.named .alias
        | '&' => scan.named .anchor
        | '!' => scan.tagged
        | '|' => if scan.flow then none else scan.block true
        | '>' => if scan.flow then none else scan.block false
        | '\'' => scan.quoted readSingle
        | '"' => scan.quoted readDouble
        | _ => scan.plain

/-- The tokens from this place on. The bound is larger than the number of characters left. -/
def finish : Nat → Scan → Option (List Token)
  | 0, _ => none
  | bound + 1, scan => do
      let scan ← scan.advance
      if scan.rest.isEmpty then return (← scan.outside).tokens.reverse
      else finish bound (← scan.token)

end Scan

def isAllowed (c : Char) : Bool :=
  c == '\t' || c == '\n' || c == '\r' || (' ' ≤ c && c ≤ '~') || c == '\x85' ||
    ('\xa0' ≤ c && c ≤ '\ufffd') || 0x10000 ≤ c.toNat

/-- Every line ends with a line feed or a separator of Unicode. -/
def unifyBreaks : List Char → List Char
  | [] => []
  | '\r' :: '\n' :: rest => '\n' :: unifyBreaks rest
  | c :: rest => (if c = '\r' || c = '\x85' then '\n' else c) :: unifyBreaks rest

def tokens? (text : List Char) : Option (List Token) :=
  if text.all isAllowed then
    let text := unifyBreaks text
    (Scan.start text).finish (text.length + 1)
  else none

end TerraDoc.Yaml
