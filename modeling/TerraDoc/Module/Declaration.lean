import TerraDoc.Hcl.Block

namespace TerraDoc.Module

/-- A declared variable. A default of null is none. -/
structure Variable where
  name : String
  description : String
  declaredType : String
  defaultValue : String
  hasDefault : Bool
deriving DecidableEq, Repr, Inhabited

structure Output where
  name : String
  description : String
deriving DecidableEq, Repr, Inhabited

structure Declarations where
  inputs : List Variable
  outputs : List Output
deriving DecidableEq, Repr, Inhabited

/-- Why a block declares nothing. -/
inductive DeclarationError where
  | unnamed (kind : String) (line : Nat)
  | type (cause : Hcl.TypeError)
  | default (cause : LiteralError)
deriving DecidableEq, Repr

/-- The name that a block declares, which is not empty. -/
def declaredName (block : Hcl.Block) : Except DeclarationError String :=
  match block.name? with
  | some name => if name.isEmpty then .error (.unnamed block.kind block.line) else .ok name
  | none => .error (.unnamed block.kind block.line)

/-- The description of a block; one that is no literal string counts as none. -/
def description (block : Hcl.Block) : String :=
  match block.attribute? "description" with
  | none => ""
  | some description =>
      match description.value.value with
      | .ok (.str text) => text
      | _ => ""

def declaredType (block : Hcl.Block) : Except DeclarationError String :=
  match block.attribute? "type" with
  | none => .ok ""
  | some type => (type.value.type.mapError .type).map Hcl.TypeExpr.canonical

/-- The default of a variable, unless it has none. -/
def defaultValue? (name : String) (block : Hcl.Block) :
    Except DeclarationError (Option Value) :=
  match block.attribute? "default" with
  | none => .ok none
  | some default =>
      if default.value.isNull then .ok none
      else (default.value.value.mapError fun cause => .default (.inDefault name cause)).map some

def variableOf (block : Hcl.Block) : Except DeclarationError Variable := do
  let name ← declaredName block
  let declaredType ← declaredType block
  let default ← defaultValue? name block
  return {
    name
    description := description block
    declaredType
    defaultValue := default.elim "" Value.canonical
    hasDefault := default.isSome }

def outputOf (block : Hcl.Block) : Except DeclarationError Output := do
  return { name := ← declaredName block, description := description block }

/-- The declarations of some blocks. Blocks of other kinds declare nothing. -/
def declarations : List Hcl.Block → Except DeclarationError Declarations
  | [] => .ok ⟨[], []⟩
  | block :: rest => do
      if block.kind = "variable" then
        let declared ← variableOf block
        let others ← declarations rest
        return { others with inputs := declared :: others.inputs }
      else if block.kind = "output" then
        let declared ← outputOf block
        let others ← declarations rest
        return { others with outputs := declared :: others.outputs }
      else declarations rest

end TerraDoc.Module
