import TerraDoc.Reading
import TerraDoc.Yaml.Token

namespace TerraDoc.Yaml

inductive Node where
  | scalar (text : List Char)
  | alias (anchor : Nat)
  | sequence (items : List Node)
  | mapping (entries : List (Node × Node))
deriving Repr

namespace Node

def empty : Node := .scalar []

end Node

/-- The tokens still to be read, the known tag handles, and the anchors: which number a name stands
for at this place, and the nodes with a number, each before the nodes that start after it. -/
structure Progress where
  tokens : List Token
  handles : List (List Char)
  names : List (List Char × Nat)
  anchored : List (Nat × Node)

abbrev Composer (α : Type) := Reading Progress α

namespace Composer

def ahead : Composer (Option Token) := do
  return (← get).tokens.head?

def skip : Composer Unit :=
  modify fun progress => { progress with tokens := progress.tokens.drop 1 }

def accept (token : Token) : Composer Bool := do
  if (← ahead) = some token then
    skip
    return true
  else return false

/-- A node, or nothing if one of these tokens comes next. -/
def unlessAhead (tokens : List Token) (node : Composer Node) : Composer Node := do
  match ← ahead with
  | some token => if tokens.contains token then return .empty else node
  | none => node

/-- The number of a new anchor: how many names there were before it. -/
def anchor (name : List Char) : Composer Nat := do
  let progress ← get
  let number := progress.names.length
  let others := progress.names.filter fun (other, _) => other ≠ name
  set { progress with names := (name, number) :: others }
  return number

/-- The number of an anchor if one comes next. -/
def anchor? : Composer (Option Nat) := do
  match ← ahead with
  | some (.anchor name) =>
      skip
      return some (← anchor name)
  | _ => return none

def tag? : Composer Bool := do
  match ← ahead with
  | some (.tag handle) =>
      if handle.all (← get).handles.contains then
        skip
        return true
      else failure
  | _ => return false

/-- What may stand before a node: the number of its anchor, and whether there is anything. -/
def properties : Composer (Option Nat × Bool) := do
  match ← anchor? with
  | some number => do
      let _ ← tag?
      return (some number, true)
  | none =>
      let tagged ← tag?
      let number ← anchor?
      return (number, tagged || number.isSome)

/-- The parts of a collection in brackets, with commas between them and perhaps after the last. -/
def bracketed {α : Type} (close : Token) (part : Composer α) : Nat → Bool → Composer (List α)
  | 0, _ => failure
  | bound + 1, first => do
      if ← accept close then return []
      unless first do
        if !(← accept .comma) then failure
      if ← accept close then return []
      let head ← part
      return head :: (← bracketed close part bound false)

/-- A key and its value after the sign of the key. Either may be left out. -/
def pair (ends : List Token) (node : Composer Node) : Composer (Node × Node) := do
  let key ← unlessAhead (.value :: ends) node
  let value ← if ← accept .value then unlessAhead ends node else pure .empty
  return (key, value)

/-- An item of a sequence in brackets; a pair there is a mapping of its own. -/
def bracketedItem (node : Composer Node) : Composer Node := do
  if ← accept .key then return .mapping [← pair [.comma, .flowSequenceEnd] node] else node

/-- A key in brackets may have no sign, and then has no value. -/
def bracketedPair (node : Composer Node) : Composer (Node × Node) := do
  if ← accept .key then pair [.comma, .flowMappingEnd] node else return (← node, .empty)

def blockItem (node : Composer Node) : Composer (Option Node) := do
  if ← accept .item then return some (← unlessAhead [.item, .blockEnd] node)
  else if ← accept .blockEnd then return none
  else failure

/-- An item of a sequence that is no deeper than the key it belongs to. -/
def unindentedItem (node : Composer Node) : Composer (Option Node) := do
  if ← accept .item then return some (← unlessAhead [.item, .key, .value, .blockEnd] node)
  else return none

def blockPair (node : Composer Node) : Composer (Option (Node × Node)) := do
  if ← accept .key then return some (← pair [.key, .blockEnd] node)
  else if ← accept .blockEnd then return none
  else failure

/-- Collections and scalars. What is announced by an anchor or a tag may be left out. -/
def content (bound : Nat) (node : (block unindented : Bool) → Composer Node)
    (block unindented announced : Bool) : Composer Node := do
  match ← ahead with
  | some (.scalar text) =>
      skip
      return .scalar text
  | some .flowSequence =>
      skip
      return .sequence (← bracketed .flowSequenceEnd (bracketedItem (node false false)) bound true)
  | some .flowMapping =>
      skip
      return .mapping (← bracketed .flowMappingEnd (bracketedPair (node false false)) bound true)
  | next =>
      if unindented && next = some .item then
        return .sequence (← Reading.repeated bound (unindentedItem (node true false)))
      else if block && next = some .blockSequence then
        skip
        return .sequence (← Reading.repeated bound (blockItem (node true false)))
      else if block && next = some .blockMapping then
        skip
        return .mapping (← Reading.repeated bound (blockPair (node true true)))
      else if announced then return .empty
      else failure

/-- A node after its anchor has got a number. The anchors inside it come after its own. -/
def anchored (number : Nat) (node : Composer Node) : Composer Node := do
  let before := (← get).anchored
  modify fun progress => { progress with anchored := [] }
  let node ← node
  modify fun progress => { progress with anchored := before ++ (number, node) :: progress.anchored }
  return node

/-- A node, in a block or in brackets. The bound is larger than the number of tokens left. -/
def node : Nat → (block unindented : Bool) → Composer Node
  | 0, _, _ => failure
  | bound + 1, block, unindented => do
      match ← ahead with
      | some (.alias name) =>
          skip
          match (← get).names.lookup name with
          | some number => return .alias number
          | none => failure
      | _ =>
          let (number, announced) ← properties
          let content := content (bound + 1) (node bound) block unindented announced
          match number with
          | some number => anchored number content
          | none => content

def handle (name : List Char) : Composer Unit := do
  let progress ← get
  if progress.handles.contains name then failure
  set { progress with handles := progress.handles ++ [name] }

/-- Go past the directives before a document. The version is said at most once, and is 1.1 or
1.2. -/
def directive (versioned : Bool) : Nat → Composer Unit
  | 0 => failure
  | bound + 1 => do
      match ← ahead with
      | some (.directive (.version major minor)) =>
          skip
          if versioned || major ≠ 1 || (minor ≠ 1 && minor ≠ 2) then failure
          directive true bound
      | some (.directive (.handle name)) =>
          skip
          handle name
          directive versioned bound
      | _ => return ()

/-- The node of the only document, if there is a document. -/
def document (bound : Nat) : Composer (Option Node) := do
  let before := (← get).tokens.length
  directive false bound
  modify fun progress => { progress with handles := progress.handles ++ [['!'], ['!', '!']] }
  let root ←
    if ← accept .documentStart then
      let missing := [none, some .documentStart, some .documentEnd].contains (← ahead)
      if missing then pure (some .empty) else some <$> node bound true false
    else if (← get).tokens.length < before then failure
    else if (← ahead).isNone then pure none
    else some <$> node bound true false
  modify fun progress => { progress with tokens := progress.tokens.dropWhile (· = .documentEnd) }
  if (← ahead).isSome then failure
  return root

end Composer

/-- A document, and the nodes that its anchors number. -/
structure Document where
  root : Option Node
  anchored : List (Nat × Node)
deriving Repr

namespace Document

/-- The node that stands in a place. The last node with the number of an alias counts. -/
def resolve (document : Document) : Node → Option Node
  | .alias number => document.anchored.reverse.lookup number
  | node => some node

def read? (text : List Char) : Option Document := do
  let tokens ← tokens? text
  let (root, progress) ← (Composer.document (tokens.length + 1)).run ⟨tokens, [], [], []⟩
  return ⟨root, progress.anchored⟩

end Document

end TerraDoc.Yaml
