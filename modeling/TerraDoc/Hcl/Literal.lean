import TerraDoc.Hcl.Heredoc
import TerraDoc.Hcl.Quoted
import TerraDoc.Hcl.Syntax

/-!
The literal value of an expression. Numbers, booleans, strings, tuples and objects have one, and
so do signed numbers and negated booleans; every other form is an error that names it.
-/

namespace TerraDoc.Hcl.Expr

def isNull (e : Expr) : Bool :=
  match e.unwrap with
  | null _ => true
  | _ => false

def notLiteral (e : Expr) : LiteralError :=
  .notLiteral e.source

def applyUnary (op : UnaryOp) (operand : Value) : Option Value :=
  match op, operand with
  | .minus, .num n => some (.num n.negate)
  | .not, .bool b => some (.bool !b)
  | _, _ => none

/-- The name that a key's value gives to an element. -/
def keyOfValue (key : Expr) (value : Value) : Except LiteralError String :=
  match value with
  | .str text => .ok text
  | .num n => .ok n.toString
  | other => .error (.keyKind key.source other.kind)

mutual

def value : Expr → Except LiteralError Value
  | number slice => ((Number.parse slice.text).mapError .number).map .num
  | bool _ b => .ok (.bool b)
  | quoted slice => (Quoted.decode slice.text).map fun text => .str (String.ofList text)
  | heredoc _ indented body => .ok (.str (String.ofList (Heredoc.text indented body.text)))
  | tuple _ items => (valueOfItems items).map .seq
  | object _ elements => do Value.ofEntries (← valueOfElements elements)
  | unary slice op operand => do
      match applyUnary op (← operand.value) with
      | some result => return result
      | none => throw (unary slice op operand).notLiteral
  | parens _ inner => inner.value
  | e => .error e.notLiteral

def valueOfItems : List Expr → Except LiteralError (List Value)
  | [] => .ok []
  | item :: rest => do return (← item.value) :: (← valueOfItems rest)

def valueOfElements : List (Expr × Expr) → Except LiteralError (List (String × Value))
  | [] => .ok []
  | (key, element) :: rest => do
      let name ← match key.unwrap with
        | reference slice => pure slice.string
        | _ => keyOfValue key (← key.value)
      return (name, ← element.value) :: (← valueOfElements rest)

end

@[simp] theorem value_unwrap (e : Expr) : e.unwrap.value = e.value := by
  fun_induction Expr.unwrap e with
  | case1 slice inner ih => rw [ih, Expr.value]
  | case2 => rfl

/-- The name that a key gives to an element: a name on its own stands for itself. -/
def key (e : Expr) : Except LiteralError String :=
  match e.unwrap with
  | reference slice => .ok slice.string
  | _ => do keyOfValue e (← e.value)

end TerraDoc.Hcl.Expr
