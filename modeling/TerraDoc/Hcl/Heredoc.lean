import TerraDoc.Text.Blank
import TerraDoc.Text.Line

/-!
The text of a heredoc. Its body begins on the line after the opening marker, and the blanks before
the closing marker are no part of it; an indented heredoc also loses the indentation that all its
lines share.
-/

namespace TerraDoc.Hcl.Heredoc

def isIndent (c : Char) : Bool :=
  c == ' ' || c == '\t'

def indentation (line : List Char) : Nat :=
  (line.takeWhile isIndent).length

/-- The least indentation of the lines that are not blank. -/
def sharedIndentation (body : List Char) : Nat :=
  let indented := (Text.lines body).filter fun line => !(Text.trim line).isEmpty
  ((indented.map indentation).min?).getD 0

/-- The body without the first `count` characters of each line, as far as they are blanks. -/
def unindent (count : Nat) (body : List Char) : List Char :=
  (Text.pieces body).flatMap fun piece => piece.drop (min count (indentation piece))

/-- A doubled dollar or percent sign before a brace stands for a single one. -/
def unescape : List Char → List Char
  | '$' :: '$' :: '{' :: rest => '$' :: '{' :: unescape rest
  | '%' :: '%' :: '{' :: rest => '%' :: '{' :: unescape rest
  | c :: rest => c :: unescape rest
  | [] => []

def dropLineBreak : List Char → List Char
  | '\r' :: '\n' :: rest => rest
  | '\n' :: rest => rest
  | body => body

/-- The text of a heredoc, given all that stands between its markers. -/
def text (indented : Bool) (body : List Char) : List Char :=
  let body := Text.trimEndWhile isIndent (dropLineBreak body)
  unescape (if indented then unindent (sharedIndentation body) body else body)

end TerraDoc.Hcl.Heredoc
