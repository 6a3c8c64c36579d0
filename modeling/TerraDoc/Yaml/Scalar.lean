/-!
The texts of YAML scalars. In plain and quoted scalars a single line break folds into a blank and
further ones stay; block scalars keep their lines or fold them. Line breaks are expected to be
line feeds already, or the two separators of Unicode.
-/

namespace TerraDoc.Yaml

def isBreak (c : Char) : Bool :=
  c == '\n' || c == '\u2028' || c == '\u2029'

def isBlank (c : Char) : Bool :=
  c == ' ' || c == '\t'

/-- Whether a text ends here or goes on with white space. -/
def blankFollows : List Char → Bool
  | [] => true
  | c :: _ => isBlank c || isBreak c

def documentMark : List Char → Bool
  | '-' :: '-' :: '-' :: rest => blankFollows rest
  | '.' :: '.' :: '.' :: rest => blankFollows rest
  | _ => false

/-- White space read but not yet written: blanks within a line, or a first line break with the
ones after it. An escaped line break is an empty first one. -/
inductive Fold where
  | none
  | blanks (read : List Char)
  | breaks (first more : List Char)
deriving DecidableEq, Repr

namespace Fold

def blank (fold : Fold) (c : Char) : Fold :=
  match fold with
  | none => .blanks [c]
  | blanks read => .blanks (read ++ [c])
  | breaks first more => .breaks first more

def break_ (fold : Fold) (c : Char) : Fold :=
  match fold with
  | breaks first more => .breaks first (more ++ [c])
  | _ => .breaks [c] []

/-- What the white space stands for when text follows. -/
def text : Fold → List Char
  | none => []
  | blanks read => read
  | breaks first more =>
      if first = ['\n'] then if more.isEmpty then [' '] else more
      else first ++ more

def isBreaks : Fold → Bool
  | breaks _ _ => true
  | _ => false

end Fold

/-- A plain scalar as it was read: its text, what follows it, and whether line breaks stand between
the two. -/
structure Plain where
  text : List Char
  rest : List Char
  broken : Bool

def isFlowIndicator (c : Char) : Bool :=
  c == ',' || c == '[' || c == ']' || c == '{' || c == '}'

/-- Whether a plain scalar cannot go on with a colon here, inside brackets. -/
def badColon : List Char → Bool
  | ':' :: c :: _ => isFlowIndicator c || c == '?'
  | _ => false

def colonEnds : List Char → Bool
  | ':' :: rest => blankFollows rest
  | _ => false

/-- Read a plain scalar on: it ends before a colon with white space, before a comment, before less
indented lines, and inside brackets before their signs. -/
def readPlain (flow : Bool) (indent : Nat) (fold : Fold) (column : Nat) :
    List Char → Option Plain
  | [] => some ⟨[], [], fold.isBreaks⟩
  | c :: rest =>
      if isBreak c then readPlain flow indent (fold.break_ c) 0 rest
      else if isBlank c then
        if c = '\t' && fold.isBreaks && column < indent then none
        else readPlain flow indent (fold.blank c) (column + 1) rest
      else
        let stop := some ⟨[], c :: rest, fold.isBreaks⟩
        if fold ≠ .none && ((!flow && column < indent) || c = '#' ||
            (column = 0 && documentMark (c :: rest))) then stop
        else if flow && badColon (c :: rest) then none
        else if colonEnds (c :: rest) || (flow && isFlowIndicator c) then stop
        else
          (readPlain flow indent .none (column + 1) rest).map fun plain =>
            { plain with text := fold.text ++ c :: plain.text }

/-- A quoted scalar after its opening quote, single ones doubled inside. -/
def readSingle (fold : Fold) (column : Nat) : List Char → Option (List Char × List Char)
  | [] => none
  | '\'' :: '\'' :: rest =>
      (readSingle .none (column + 2) rest).map fun (text, rest) =>
        (fold.text ++ '\'' :: text, rest)
  | '\'' :: rest => some (fold.text, rest)
  | c :: rest =>
      if column = 0 && documentMark (c :: rest) then none
      else if isBreak c then readSingle (fold.break_ c) 0 rest
      else if isBlank c then readSingle (fold.blank c) (column + 1) rest
      else (readSingle .none (column + 1) rest).map fun (text, rest) =>
        (fold.text ++ c :: text, rest)

/-- The character of a one-letter escape in double quotes. -/
def escaped? : Char → Option Char
  | '0' => some '\x00'
  | 'a' => some '\x07'
  | 'b' => some '\x08'
  | 't' | '\t' => some '\t'
  | 'n' => some '\n'
  | 'v' => some '\x0b'
  | 'f' => some '\x0c'
  | 'r' => some '\r'
  | 'e' => some '\x1b'
  | ' ' => some ' '
  | '"' => some '"'
  | '/' => some '/'
  | '\\' => some '\\'
  | 'N' => some '\x85'
  | '_' => some '\xa0'
  | 'L' => some '\u2028'
  | 'P' => some '\u2029'
  | _ => none

def hexValue? (c : Char) : Option Nat :=
  if c.isDigit then some (c.toNat - '0'.toNat)
  else if 'a' ≤ c && c ≤ 'f' then some (c.toNat - 'a'.toNat + 10)
  else if 'A' ≤ c && c ≤ 'F' then some (c.toNat - 'A'.toNat + 10)
  else none

def coded? (digits : List Char) : Option Char := do
  let code := (← digits.mapM hexValue?).foldl (fun n digit => 16 * n + digit) 0
  if code.isValidChar then some (Char.ofNat code) else none

def readDouble (fold : Fold) (column : Nat) : List Char → Option (List Char × List Char)
  | [] => none
  | '"' :: rest => some (fold.text, rest)
  | '\\' :: 'x' :: a :: b :: rest => do
      let c ← coded? [a, b]
      let (text, rest) ← readDouble .none (column + 4) rest
      return (fold.text ++ c :: text, rest)
  | '\\' :: 'u' :: a :: b :: c :: d :: rest => do
      let e ← coded? [a, b, c, d]
      let (text, rest) ← readDouble .none (column + 6) rest
      return (fold.text ++ e :: text, rest)
  | '\\' :: 'U' :: a :: b :: c :: d :: e :: f :: g :: h :: rest => do
      let i ← coded? [a, b, c, d, e, f, g, h]
      let (text, rest) ← readDouble .none (column + 10) rest
      return (fold.text ++ i :: text, rest)
  | '\\' :: c :: rest =>
      if isBreak c then
        (readDouble (.breaks [] []) 0 rest).map fun (text, rest) => (fold.text ++ text, rest)
      else do
        let e ← escaped? c
        let (text, rest) ← readDouble .none (column + 2) rest
        return (fold.text ++ e :: text, rest)
  | c :: rest =>
      if c = '\\' || (column = 0 && documentMark (c :: rest)) then none
      else if isBreak c then readDouble (fold.break_ c) 0 rest
      else if isBlank c then readDouble (fold.blank c) (column + 1) rest
      else (readDouble .none (column + 1) rest).map fun (text, rest) =>
        (fold.text ++ c :: text, rest)

/-- What becomes of the line breaks at the end of a block scalar. -/
inductive Chomping where
  | strip
  | clip
  | keep
deriving DecidableEq, Repr

structure BlockHeader where
  chomping : Chomping
  /-- How much deeper than their surroundings the lines are, if it is said. -/
  deeper : Option Nat
deriving DecidableEq, Repr

def chomping? : Char → Option Chomping
  | '-' => some .strip
  | '+' => some .keep
  | _ => none

def depth? (c : Char) : Option Nat :=
  if '1' ≤ c && c ≤ '9' then some (c.toNat - '0'.toNat) else none

/-- The signs after a bar or an angle bracket: a chomping and a depth, in either order. -/
def readSigns (text : List Char) : Option (BlockHeader × List Char) :=
  match text with
  | a :: rest =>
      match chomping? a, depth? a with
      | some chomping, _ =>
          match rest with
          | b :: after =>
              match depth? b with
              | some depth => some (⟨chomping, some depth⟩, after)
              | none => if b = '0' then none else some (⟨chomping, none⟩, rest)
          | [] => some (⟨chomping, none⟩, [])
      | none, some depth =>
          match rest with
          | b :: after =>
              match chomping? b with
              | some chomping => some (⟨chomping, some depth⟩, after)
              | none => some (⟨.clip, some depth⟩, rest)
          | [] => some (⟨.clip, some depth⟩, [])
      | none, none => if a = '0' then none else some (⟨.clip, none⟩, text)
  | [] => some (⟨.clip, none⟩, [])

/-- What follows a line on which only a comment may still stand. -/
def afterLine? (text : List Char) : Option (List Char) :=
  let text := text.dropWhile isBlank
  let text := match text with
    | '#' :: _ => text.dropWhile (!isBreak ·)
    | text => text
  match text with
  | [] => some []
  | c :: rest => if isBreak c then some rest else none

/-- Empty lines and the indentation of the next line with text. -/
structure Indentation where
  breaks : List Char
  rest : List Char
  column : Nat
  /-- The widest indentation seen. -/
  widest : Nat

/-- Go past empty lines and indentation, at most up to a given column if there is one. -/
def readIndentation (limit : Option Nat) (breaks : List Char) (column widest : Nat) :
    List Char → Option Indentation
  | [] => some ⟨breaks, [], column, max widest column⟩
  | c :: rest =>
      let inside := limit.elim true (column < ·)
      if inside && c = ' ' then readIndentation limit breaks (column + 1) widest rest
      else if inside && c = '\t' then none
      else if isBreak c then
        readIndentation limit (breaks ++ [c]) 0 (max widest column) rest
      else some ⟨breaks, c :: rest, column, max widest column⟩

def startsBlank : List Char → Bool
  | c :: _ => isBlank c
  | [] => false

/-- The lines of a block scalar at an indentation. The bound is larger than the number of
characters left. -/
def readLines (literal : Bool) (indent : Nat) :
    Nat → List Char → Bool → Indentation → Option (List Char × List Char × List Char × Indentation)
  | 0, _, _, _ => none
  | bound + 1, lineBreak, blankBefore, here =>
      if here.column ≠ indent || here.rest.isEmpty then some ([], lineBreak, here.breaks, here)
      else do
        let blankHere := startsBlank here.rest
        let joint :=
          if !literal && lineBreak = ['\n'] && !blankBefore && !blankHere then
            if here.breaks.isEmpty then [' '] else here.breaks
          else lineBreak ++ here.breaks
        let line := here.rest.takeWhile (!isBreak ·)
        let after := here.rest.dropWhile (!isBreak ·)
        let next ← readIndentation (some indent) [] 0 0 (after.drop 1)
        let (text, lineBreak, breaks, last) ←
          readLines literal indent bound (after.take 1) blankHere next
        return (joint ++ line ++ text, lineBreak, breaks, last)

/-- A block scalar after its bar or angle bracket, in a block of some indentation or outside all. -/
def readBlock (literal : Bool) (around : Option Nat) (text : List Char) :
    Option (List Char × List Char) := do
  let (header, text) ← readSigns text
  let text ← afterLine? text
  let said := header.deeper.map (around.getD 0 + ·)
  let first ← readIndentation said [] 0 0 text
  let indent := said.getD (max first.widest (max (around.elim 0 (· + 1)) 1))
  let (content, lineBreak, breaks, last) ←
    readLines literal indent (text.length + 1) [] false first
  let ending := match header.chomping with
    | .strip => []
    | .clip => lineBreak
    | .keep => lineBreak ++ breaks
  return (content ++ ending, last.rest)

end TerraDoc.Yaml
