import TerraDoc.Text.Utf8

/-!
Glob patterns over paths. Most wildcards stay within one name of a path; two stars between slashes
stand for any number of names. Patterns and paths are compared byte by byte.
-/

namespace TerraDoc.Ignore

/-- A part of a pattern. -/
inductive Piece where
  | byte (b : UInt8)
  /-- One byte of a name. -/
  | any
  /-- Any number of bytes of a name. -/
  | star
  /-- Any folders before a name. -/
  | folders
  /-- Anything below a folder. -/
  | below
  /-- Any folders between two names. -/
  | between
  | set (negated : Bool) (ranges : List (UInt8 × UInt8))
deriving DecidableEq, Repr

def slash : UInt8 := '/'.toNat.toUInt8

def afterSlashes : List UInt8 → List (List UInt8)
  | [] => []
  | b :: rest => if b = slash then rest :: afterSlashes rest else afterSlashes rest

/-- What may be left after some bytes of a name. -/
def afterName : List UInt8 → List (List UInt8)
  | [] => [[]]
  | b :: rest => (b :: rest) :: if b = slash then [] else afterName rest

def tails : List UInt8 → List (List UInt8)
  | [] => [[]]
  | b :: rest => (b :: rest) :: tails rest

/-- What a piece may leave of a path whose beginning it matches. -/
def Piece.rests (piece : Piece) (path : List UInt8) : List (List UInt8) :=
  match piece, path with
  | star, path => afterName path
  | folders, path => path :: afterSlashes path
  | _, [] => []
  | byte wanted, b :: rest => if b = wanted then [rest] else []
  | any, b :: rest => if b = slash then [] else [rest]
  | below, b :: rest => if b = slash then tails rest else []
  | between, b :: rest => if b = slash then rest :: afterSlashes rest else []
  | set negated ranges, b :: rest =>
      if (ranges.any fun (low, high) => low ≤ b && b ≤ high) != negated then [rest] else []

def matchesAll : List Piece → List UInt8 → Bool
  | [], path => path.isEmpty
  | piece :: pieces, path => (piece.rests path).any (matchesAll pieces)

/-- A pattern: what it matches is what one of its alternatives matches. -/
abbrev Glob := List (List Piece)

/-- Two stars alone match everything, as a piece for folders does not. -/
def Glob.isMatch (glob : Glob) (path : List UInt8) : Bool :=
  glob = [[.folders]] || glob.any (matchesAll · path)

namespace Glob

/-- What the characters of a pattern stand for. -/
inductive Sign where
  | char (c : Char)
  /-- A character that stands for itself because of a backslash. -/
  | escaped (c : Char)
  | any
  | star
  | stars
  | set (negated : Bool) (ranges : List (Char × Char))
  | opening
  | comma
  | closing
deriving DecidableEq, Repr

/-- Why a text is no pattern. -/
inductive Fault where
  /-- The ends of a range are the wrong way round. -/
  | range (low high : Char)
  | unopened
  | unclosed
  | dangling
deriving DecidableEq, Repr

def Fault.message : Fault → String
  | .range low high =>
      "invalid range; '" ++ low.toString ++ "' > '" ++ high.toString ++ "'"
  | .unopened =>
      "unopened alternate group; missing '\x7b' (maybe escape '\x7d' with '[\x7d]'?)"
  | .unclosed =>
      "unclosed alternate group; missing '\x7d' (maybe escape '\x7b' with '[\x7b]'?)"
  | .dangling => "dangling '\\'"

/-- A set in brackets while it is read: its ranges, the last one first. -/
structure Bracket where
  negated : Bool
  ranges : List (Char × Char)
  /-- Whether a hyphen was just read. -/
  hyphen : Bool
deriving DecidableEq, Repr

namespace Bracket

def start : Bracket := ⟨false, [], false⟩

def read (bracket : Bracket) (c : Char) : Except Fault Bracket :=
  match bracket.ranges with
  | [] =>
      if !bracket.negated && (c = '!' || c = '^') then .ok { bracket with negated := true }
      else .ok { bracket with ranges := [(c, c)] }
  | (low, high) :: ranges =>
      if bracket.hyphen then
        if low ≤ c then .ok { bracket with ranges := (low, c) :: ranges, hyphen := false }
        else .error (.range low c)
      else if c = '-' then .ok { bracket with hyphen := true }
      else .ok { bracket with ranges := (c, c) :: (low, high) :: ranges }

def sign (bracket : Bracket) : Sign :=
  .set bracket.negated (if bracket.hyphen then ('-', '-') :: bracket.ranges else bracket.ranges)

end Bracket

/-- Whether a set that starts here has an end. A closing bracket at its start is a member. -/
def isClosed : List Char → Bool
  | '!' :: _ :: rest => rest.contains ']'
  | '^' :: _ :: rest => rest.contains ']'
  | _ :: rest => rest.contains ']'
  | [] => false

def signOf : Char → Sign
  | '?' => .any
  | '*' => .star
  | ',' => .comma
  | c => .char c

/-- The signs of a pattern, read from inside a set or from outside all of them, in so many groups.
After a bracket that starts a set without an end, brackets start none. -/
def signs : (sets : Bool) → (groups : Nat) → Option Bracket → List Char →
    Except Fault (List Sign)
  | _, 0, none, [] => .ok []
  | _, _ + 1, none, [] => .error .unclosed
  | _, _, some _, [] => .ok []
  | sets, groups, some set, c :: rest => do
      if c = ']' && !set.ranges.isEmpty then return set.sign :: (← signs sets groups none rest)
      signs sets groups (some (← set.read c)) rest
  | _, _, none, ['\\'] => .error .dangling
  | sets, groups, none, '\\' :: c :: rest => return .escaped c :: (← signs sets groups none rest)
  | sets, groups, none, '*' :: '*' :: rest => return .stars :: (← signs sets groups none rest)
  | sets, groups, none, '\x7b' :: rest => return .opening :: (← signs sets (groups + 1) none rest)
  | _, 0, none, '\x7d' :: _ => .error .unopened
  | sets, groups + 1, none, '\x7d' :: rest => return .closing :: (← signs sets groups none rest)
  | true, groups, none, '[' :: rest => do
      if isClosed rest then signs true groups (some .start) rest
      else
        let _ ← rest.foldlM Bracket.read .start
        return .char '[' :: (← signs false groups none rest)
  | sets, groups, none, c :: rest => return signOf c :: (← signs sets groups none rest)

/-- The bytes between two characters; within one character its bytes count one by one. -/
def byteRanges (range : Char × Char) : List (UInt8 × UInt8) :=
  let low := String.utf8EncodeChar range.1
  let high := String.utf8EncodeChar range.2
  if range.1 = range.2 then low.map fun b => (b, b)
  else
    low.dropLast.map (fun b => (b, b)) ++ (low.getLast?.toList.zip (high.take 1)) ++
      (high.drop 1).map fun b => (b, b)

/-- The alternatives at hand while a pattern is read: those already ended at a comma, and the ones
that are going on. -/
structure Group where
  ended : Glob
  running : Glob
deriving DecidableEq, Repr

namespace Group

def start : Group := ⟨[], [[]]⟩

def isStart (group : Group) : Bool :=
  group.running = [[]]

def push (group : Group) (pieces : List Piece) : Group :=
  { group with running := group.running.map (· ++ pieces) }

def pushChar (group : Group) (c : Char) : Group :=
  group.push ((String.utf8EncodeChar c).map .byte)

/-- Put a piece for folders in the place of the slash before it. -/
def replace (group : Group) (piece : Piece) : Group :=
  { group with running := group.running.map fun pieces =>
      if pieces.getLast? = some .folders then pieces else pieces.dropLast ++ [piece] }

def comma (group : Group) : Group :=
  ⟨group.ended ++ group.running, [[]]⟩

/-- End a group inside another one. Empty alternatives do not count. -/
def close (outer group : Group) : Group :=
  let choices := (group.ended ++ group.running).filter (!·.isEmpty)
  if choices.isEmpty then outer
  else { outer with running := outer.running.flatMap fun pieces => choices.map (pieces ++ ·) }

end Group

/-- Read the signs of a pattern. The groups around the one at hand come innermost first;
`slashBefore` says whether the character before is a slash. -/
def read (outer : List Group) (group : Group) (slashBefore : Bool) : List Sign → Glob
  | [] => group.running
  | .stars :: .char '/' :: rest =>
      if group.isStart then read outer (group.push [.folders]) true rest
      else if slashBefore then read outer (group.replace .between) true rest
      else read outer ((group.push [.star]).pushChar '/') true rest
  | .stars :: rest =>
      let alternativeEnds := rest.head? = some .comma || rest.head? = some .closing
      if group.isStart && rest.isEmpty then read outer (group.push [.folders]) false rest
      else if slashBefore && !group.isStart &&
          (rest.isEmpty || (!outer.isEmpty && alternativeEnds)) then
        read outer (group.replace .below) false rest
      else read outer (group.push [.star]) false rest
  | .char c :: rest => read outer (group.pushChar c) (c = '/') rest
  | .escaped c :: rest => read outer (group.pushChar c) (c = '/') rest
  | .any :: rest => read outer (group.push [.any]) false rest
  | .star :: rest => read outer (group.push [.star]) false rest
  | .set negated ranges :: rest =>
      read outer (group.push [.set negated (ranges.flatMap byteRanges)]) false rest
  | .opening :: rest => read (group :: outer) .start false rest
  | .comma :: rest =>
      if outer.isEmpty then read outer (group.pushChar ',') false rest
      else read outer group.comma false rest
  | .closing :: rest =>
      match outer with
      | around :: outer => read outer (around.close group) false rest
      | [] => read [] group false rest

def parse (text : List Char) : Except Fault Glob :=
  (signs true 0 none text).map (read [] .start false)

end Glob

end TerraDoc.Ignore
