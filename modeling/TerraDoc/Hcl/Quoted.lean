import TerraDoc.Text.Blank
import TerraDoc.Value.Basic

/-!
The text of a quoted string. A backslash escapes; a doubled dollar or percent sign before a brace
stands for a single one, because one alone would open a template.
-/

namespace TerraDoc.Hcl.Quoted

/-- What is wrong with an escape: its letter, or the code after `u` or `U`. -/
inductive Fault where
  | letter
  | code
deriving DecidableEq, Repr

def hexValue? (c : Char) : Option Nat :=
  if c.isDigit then some (c.toNat - '0'.toNat)
  else if 'a' ≤ c && c ≤ 'f' then some (c.toNat - 'a'.toNat + 10)
  else if 'A' ≤ c && c ≤ 'F' then some (c.toNat - 'A'.toNat + 10)
  else none

/-- The number that hexadecimal digits spell; a plus sign may stand before them. -/
def hexNumber? (digits : List Char) : Option Nat :=
  let digits := match digits with
    | '+' :: rest => rest
    | digits => digits
  if digits.isEmpty then none
  else (digits.mapM hexValue?).map (·.foldl (fun n digit => 16 * n + digit) 0)

/-- The character with a code, unless it is a surrogate or beyond the last one. -/
def scalar? (code : Nat) : Option Char :=
  if code.isValidChar then some (Char.ofNat code) else none

def coded? (digits : List Char) : Option Char :=
  (hexNumber? digits).bind scalar?

def short? : Char → Option Char
  | 'n' => some '\n'
  | 'r' => some '\r'
  | 't' => some '\t'
  | '"' => some '"'
  | '\\' => some '\\'
  | _ => none

def unescape : List Char → Except Fault (List Char)
  | [] => .ok []
  | '\\' :: 'u' :: a :: b :: c :: d :: rest =>
      match coded? [a, b, c, d] with
      | some scalar => (scalar :: ·) <$> unescape rest
      | none => .error .code
  | '\\' :: 'U' :: a :: b :: c :: d :: e :: f :: g :: h :: rest =>
      match coded? [a, b, c, d, e, f, g, h] with
      | some scalar => (scalar :: ·) <$> unescape rest
      | none => .error .code
  | '\\' :: letter :: rest =>
      match short? letter with
      | some c => (c :: ·) <$> unescape rest
      | none => .error (if letter = 'u' || letter = 'U' then .code else .letter)
  | '$' :: '$' :: '{' :: rest => ('$' :: '{' :: ·) <$> unescape rest
  | '%' :: '%' :: '{' :: rest => ('%' :: '{' :: ·) <$> unescape rest
  | c :: rest => if c = '\\' then .error .letter else (c :: ·) <$> unescape rest

def inner? (text : List Char) : Option (List Char) :=
  match text with
  | '"' :: rest =>
      match rest.reverse with
      | '"' :: inner => some inner.reverse
      | _ => none
  | _ => none

/-- The text of a quoted string, given with its quotes and perhaps white space around them. -/
def decode (raw : List Char) : Except LiteralError (List Char) :=
  match inner? (Text.trim raw) with
  | none => .error (.notQuoted (String.ofList raw))
  | some inner =>
      match unescape inner with
      | .ok text => .ok text
      | .error .letter => .error (.escape (String.ofList raw))
      | .error .code => .error (.unicodeEscape (String.ofList raw))

end TerraDoc.Hcl.Quoted
