import TerraDoc.Json.Basic

namespace TerraDoc.Json

def asString? : Json → Option String
  | .string text => some text
  | _ => none

def asBool? : Json → Option Bool
  | .bool b => some b
  | _ => none

def asArray? : Json → Option (List Json)
  | .array items => some items
  | _ => none

def asObject? : Json → Option (List (String × Json))
  | .object members => some members
  | _ => none

def member? (key : String) (json : Json) : Option Json := do
  match (← json.asObject?).filter (·.1 == key) with
  | [(_, value)] => some value
  | _ => none

end TerraDoc.Json
