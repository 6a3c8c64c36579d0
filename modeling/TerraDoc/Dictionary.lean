/-!
Dictionaries: entries in strictly ascending order of their keys. The order of strings is that of
their code points, which is also the order of their UTF-8 bytes.
-/

namespace TerraDoc

abbrev Dictionary (α : Type) := List (String × α)

namespace Dictionary

variable {α : Type}

def Ordered (entries : Dictionary α) : Prop :=
  entries.Pairwise fun a b => a.1 < b.1

def find? (key : String) (entries : Dictionary α) : Option α :=
  List.lookup key entries

def insert (key : String) (value : α) : Dictionary α → Dictionary α
  | [] => [(key, value)]
  | (k, v) :: rest =>
      if key < k then (key, value) :: (k, v) :: rest
      else if key = k then (key, value) :: rest
      else (k, v) :: insert key value rest

def ofList (entries : List (String × α)) : Dictionary α :=
  entries.foldl (fun dictionary (key, value) => dictionary.insert key value) []

def repeated? : List (String × α) → Option String :=
  go []
where
  go (seen : List String) : List (String × α) → Option String
    | [] => none
    | (key, _) :: rest => if seen.contains key then some key else go (key :: seen) rest

end Dictionary

end TerraDoc
