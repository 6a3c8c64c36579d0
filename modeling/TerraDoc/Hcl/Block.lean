import TerraDoc.Hcl.TypeExpr
import TerraDoc.Hcl.Exponent
import TerraDoc.Hcl.Grammar

namespace TerraDoc.Hcl

structure Attribute where
  name : String
  value : Expr
deriving Inhabited

/-- A top-level block: its kind, its labels, the attributes directly in its body, and the line it
starts on, counted from 1. -/
structure Block where
  kind : String
  labels : List String
  attributes : List Attribute
  line : Nat
deriving Inhabited

namespace Block

/-- The first label, by which variables and outputs are known. -/
def name? (block : Block) : Option String :=
  block.labels.head?

def attribute? (name : String) (block : Block) : Option Attribute :=
  block.attributes.find? (·.name == name)

end Block

/-- The text of a label. A quoted one whose escapes name no characters keeps them. -/
def Label.text : Label → String
  | .name slice => slice.string
  | .quoted slice =>
      match Quoted.decode slice.text with
      | .ok text => String.ofList text
      | .error _ => String.ofList (Text.trimWhile (· == '"') slice.text)

def Item.attribute? : Item → Option Attribute
  | .attr name value => some ⟨name.string, value⟩
  | .block _ _ _ => none

def lineAt (source : List Char) (position : Nat) : Nat :=
  1 + (source.take position).count '\n'

def Item.block? (source : List Char) : Item → Option Block
  | .attr _ _ => none
  | .block kind labels body =>
      some ⟨kind.string, labels.map Label.text, body.filterMap Item.attribute?,
        lineAt source kind.start⟩

/-- The top-level blocks of a file, in order. A file that is one object has none. -/
def File.blocks (file : File) : List Block :=
  match file.content with
  | .body items => items.filterMap (Item.block? file.source)
  | .object _ => []

/-- Reads a source, after spelling its exponents the way the grammar wants them. -/
def parse? (source : List Char) : Option File :=
  readFile? (Exponent.normalize source)

end TerraDoc.Hcl
