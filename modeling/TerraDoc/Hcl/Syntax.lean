/-!
Syntax trees of configuration files. Every node keeps the piece of the source it was read from,
because messages quote it. Forms that never have a literal value keep only what is inside them.
-/

namespace TerraDoc.Hcl

/-- A piece of a source and the position of its first character. -/
structure Slice where
  start : Nat
  text : List Char
deriving DecidableEq, Repr, Inhabited

namespace Slice

def stop (slice : Slice) : Nat :=
  slice.start + slice.text.length

def string (slice : Slice) : String :=
  String.ofList slice.text

end Slice

inductive UnaryOp where
  | minus
  | not
deriving DecidableEq, Repr

/-- The forms whose value depends on more than literals. -/
inductive Form where
  /-- Operands joined by binary operators, indices, attribute accesses and splats. Nothing here
  is evaluated, so precedence is not resolved. -/
  | operation
  | conditional
  | forTuple
  | forObject
deriving DecidableEq, Repr

inductive Expr where
  | number (slice : Slice)
  | bool (slice : Slice) (b : Bool)
  | null (slice : Slice)
  /-- A quoted string without interpolations and directives. -/
  | quoted (slice : Slice)
  | quotedTemplate (slice : Slice) (inside : List Expr)
  /-- A heredoc without interpolations and directives: the body is all between its markers. -/
  | heredoc (slice : Slice) (indented : Bool) (body : Slice)
  | heredocTemplate (slice : Slice) (inside : List Expr)
  | tuple (slice : Slice) (items : List Expr)
  | object (slice : Slice) (elements : List (Expr × Expr))
  /-- A name on its own. -/
  | reference (slice : Slice)
  /-- A call, and whether its last argument is expanded with `...`. -/
  | call (slice : Slice) (function : Slice) (arguments : List Expr) (expanded : Bool)
  | unary (slice : Slice) (op : UnaryOp) (operand : Expr)
  | compound (slice : Slice) (form : Form) (inside : List Expr)
  | parens (slice : Slice) (inner : Expr)
deriving Inhabited

namespace Expr

def slice : Expr → Slice
  | number slice | bool slice _ | null slice | quoted slice | quotedTemplate slice _
  | heredoc slice _ _ | heredocTemplate slice _ | tuple slice _ | object slice _
  | reference slice | call slice _ _ _ | unary slice _ _ | compound slice _ _
  | parens slice _ => slice

def source (e : Expr) : String :=
  e.slice.string

def unwrap : Expr → Expr
  | parens _ inner => inner.unwrap
  | e => e

end Expr

/-- A label of a block: a name, or a quoted string in which interpolation has no meaning. -/
inductive Label where
  | name (slice : Slice)
  | quoted (slice : Slice)
deriving DecidableEq, Repr

/-- What a body holds: attributes and blocks, in any order. -/
inductive Item where
  | attr (name : Slice) (value : Expr)
  | block (kind : Slice) (labels : List Label) (body : List Item)
deriving Inhabited

/-- A file holds a body, or one object in place of it. -/
inductive Content where
  | body (items : List Item)
  | object (value : Expr)
deriving Inhabited

/-- The tokens of a source, its fixed signs apart. A heredoc is one token to all around it, and
holds the tokens of what it interpolates. -/
inductive Token where
  | comment (slice : Slice)
  | name (slice : Slice)
  | number (slice : Slice)
  /-- The digits of an index after a point. -/
  | index (slice : Slice)
  /-- A quoted string without interpolations and directives. -/
  | quoted (slice : Slice)
  /-- A stretch of text between quotes. -/
  | text (slice : Slice)
  /-- The two signs that open an interpolation or a directive. -/
  | opening (slice : Slice)
  /-- A quoted label of a block. -/
  | label (slice : Slice)
  /-- A stretch of the text of a quoted label. -/
  | labelText (slice : Slice)
  | heredoc (slice : Slice) (inside : List Token)
deriving Inhabited

namespace Token

def slice : Token → Slice
  | comment slice | name slice | number slice | index slice | quoted slice | text slice
  | opening slice | label slice | labelText slice | heredoc slice _ => slice

def isNumber : Token → Bool
  | number _ => true
  | _ => false

end Token

/-- A file as it was read: its source, what it holds, and its tokens in order. -/
structure File where
  source : List Char
  content : Content
  tokens : List Token
deriving Inhabited

end TerraDoc.Hcl
