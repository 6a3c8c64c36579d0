import TerraDoc.Dictionary

namespace TerraDoc.Files

inductive Node where
  | file (content : List UInt8)
  | folder (entries : List (String × Node))
  | link (target : List Char)
deriving Repr, Inhabited

namespace Node

def isFile : Node → Bool
  | file _ => true
  | _ => false

def isFolder : Node → Bool
  | folder _ => true
  | _ => false

/-- The entries of a folder; other nodes have none. -/
def entries : Node → Dictionary Node
  | folder entries => entries
  | _ => []

def at? (node : Node) : List String → Option Node
  | [] => some node
  | name :: rest => (node.entries.find? name).bind fun child => child.at? rest

/-- Put a node at a place. Folders that are missing on the way there are made. -/
def put (new : Node) : List String → Node → Node
  | [], _ => new
  | name :: rest, node =>
      folder (node.entries.insert name
        (put new rest ((node.entries.find? name).getD (folder []))))

def remove : List String → Node → Node
  | [], _ => folder []
  | [name], node => folder (node.entries.filter (·.1 ≠ name))
  | name :: rest, node =>
      match node.entries.find? name with
      | some child => folder (node.entries.insert name (remove rest child))
      | none => node

@[simp] theorem at?_nil (node : Node) : node.at? [] = some node := by
  cases node <;> rfl

end Node

end TerraDoc.Files
