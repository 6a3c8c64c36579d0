import TerraDoc.Hcl.Literal

namespace TerraDoc.Hcl

/-- Why an expression is no type. -/
inductive TypeFault where
  | constructorAlone (name : String)
  | unknownKeyword (name : String)
  | interpolation
  | unknownQuoted
  | notType
  | tupleArgument
  | objectArgument
  | attributeName
  | repeatedAttribute (name : String)
  | misplacedOptional
  | argumentCount (name : String)
  | unknownConstructor (name : String)
deriving DecidableEq, Repr

def TypeFault.message : TypeFault → String
  | .constructorAlone name => "the " ++ name ++ " type constructor requires an argument"
  | .unknownKeyword name => "unknown type keyword " ++ name
  | .interpolation => "quoted type names cannot use interpolation"
  | .unknownQuoted => "unknown quoted type name"
  | .notType => "not a valid type expression"
  | .tupleArgument => "tuple() expects a list of element types"
  | .objectArgument => "object() expects a map of attribute types"
  | .attributeName => "invalid object attribute name"
  | .repeatedAttribute name => "duplicate object attribute " ++ name
  | .misplacedOptional => "optional() is only valid for object attributes"
  | .argumentCount name => "wrong number of arguments for " ++ name ++ "()"
  | .unknownConstructor name => "unknown type constructor " ++ name

/-- An expression that is no type, and why. -/
structure TypeError where
  expression : String
  fault : TypeFault
deriving DecidableEq, Repr

def TypeError.message (e : TypeError) : String :=
  "Invalid type expression `" ++ e.expression ++ "`: " ++ e.fault.message

inductive Primitive where
  | string
  | number
  | bool
  | any
deriving DecidableEq, Repr

inductive Collection where
  | list
  | set
  | map
deriving DecidableEq, Repr

/-- A type. The attributes of an object are a `Dictionary`, and only they are optional. -/
inductive TypeExpr where
  | primitive (p : Primitive)
  | collection (c : Collection) (element : TypeExpr)
  | tuple (elements : List TypeExpr)
  | object (attributes : List (String × TypeExpr))
  | optional (type : TypeExpr)
deriving Inhabited

def Primitive.name : Primitive → String
  | .string => "string"
  | .number => "number"
  | .bool => "bool"
  | .any => "any"

def Collection.name : Collection → String
  | .list => "list"
  | .set => "set"
  | .map => "map"

def Primitive.ofName? : String → Option Primitive
  | "string" => some .string
  | "number" => some .number
  | "bool" => some .bool
  | "any" => some .any
  | _ => none

def Collection.ofName? : String → Option Collection
  | "list" => some .list
  | "set" => some .set
  | "map" => some .map
  | _ => none

/-- The names that have a meaning before an argument list. -/
def constructorNames : List String :=
  ["list", "set", "map", "tuple", "object"]

namespace TypeExpr

mutual

def canonicalText : TypeExpr → List Char
  | primitive p => p.name.toList
  | collection c element => c.name.toList ++ '(' :: (element.canonicalText ++ [')'])
  | tuple elements => "tuple([".toList ++ (elementTexts elements ++ [']', ')'])
  | object attributes => "object(\x7b".toList ++ (attributeTexts attributes ++ ['}', ')'])
  | optional type => "optional(".toList ++ (type.canonicalText ++ [')'])

def elementTexts : List TypeExpr → List Char
  | [] => []
  | [element] => element.canonicalText
  | element :: rest => element.canonicalText ++ ',' :: elementTexts rest

def attributeTexts : List (String × TypeExpr) → List Char
  | [] => []
  | [(name, type)] => name.toList ++ '=' :: type.canonicalText
  | (name, type) :: rest =>
      name.toList ++ '=' :: (type.canonicalText ++ ',' :: attributeTexts rest)

end

def canonical (type : TypeExpr) : String :=
  String.ofList type.canonicalText

end TypeExpr

namespace Expr

def typeError (e : Expr) (fault : TypeFault) : TypeError :=
  ⟨e.source, fault⟩

/-- The type that a name on its own stands for. -/
def typeOfName (slice : Slice) : Except TypeError TypeExpr :=
  match Primitive.ofName? slice.string with
  | some p => .ok (.primitive p)
  | none =>
      if constructorNames.contains slice.string then
        .error ⟨slice.string, .constructorAlone slice.string⟩
      else .error ⟨slice.string, .unknownKeyword slice.string⟩

/-- The type that a quoted name stands for, in the spelling of old configurations. -/
def typeOfQuoted (slice : Slice) : Except TypeError TypeExpr :=
  match Quoted.decode slice.text with
  | .error _ => .error ⟨slice.string, .interpolation⟩
  | .ok name =>
      match String.ofList name with
      | "string" => .ok (.primitive .string)
      | "list" => .ok (.collection .list (.primitive .string))
      | "map" => .ok (.collection .map (.primitive .string))
      | _ => .error ⟨slice.string, .unknownQuoted⟩

/-- Why a call is no type when no constructor takes its arguments. -/
def callFault (direct : Bool) (name : String) : TypeFault :=
  if name = "optional" then if direct then .argumentCount name else .misplacedOptional
  else if constructorNames.contains name then .argumentCount name
  else .unknownConstructor name

mutual

/-- The type that an expression stands for; `optional` has a meaning only for what is `direct`, the
whole type of an attribute. -/
def typeAt (direct : Bool) : Expr → Except TypeError TypeExpr
  | parens _ inner => inner.typeAt direct
  | reference slice => typeOfName slice
  | quoted slice => typeOfQuoted slice
  | quotedTemplate slice _ => .error ⟨slice.string, .interpolation⟩
  | call slice function arguments _ => typeOfCall direct slice.string function.string arguments
  | e => .error (e.typeError .notType)

def typeOfCall (direct : Bool) (source name : String) :
    List Expr → Except TypeError TypeExpr
  | [argument] =>
      match Collection.ofName? name with
      | some c => (argument.typeAt false).map (.collection c)
      | none =>
          if name = "tuple" then argument.tupleType source
          else if name = "object" then argument.objectType source
          else if name = "optional" && direct then (argument.typeAt false).map .optional
          else .error ⟨source, callFault direct name⟩
  | [argument, _] =>
      if name = "optional" && direct then (argument.typeAt false).map .optional
      else .error ⟨source, callFault direct name⟩
  | _ => .error ⟨source, callFault direct name⟩

def tupleType (source : String) : Expr → Except TypeError TypeExpr
  | parens _ inner => inner.tupleType source
  | tuple _ items => (typesOfItems items).map .tuple
  | _ => .error ⟨source, .tupleArgument⟩

def objectType (source : String) : Expr → Except TypeError TypeExpr
  | parens _ inner => inner.objectType source
  | object _ elements => (typesOfElements source [] elements).map .object
  | _ => .error ⟨source, .objectArgument⟩

def typesOfItems : List Expr → Except TypeError (List TypeExpr)
  | [] => .ok []
  | item :: rest => do return (← item.typeAt false) :: (← typesOfItems rest)

def typesOfElements (source : String) (attributes : Dictionary TypeExpr) :
    List (Expr × Expr) → Except TypeError (Dictionary TypeExpr)
  | [] => .ok attributes
  | (nameExpr, typeExpr) :: rest => do
      let name ← nameExpr.key.mapError fun _ => nameExpr.typeError .attributeName
      let type ← typeExpr.typeAt true
      if (attributes.find? name).isSome then throw ⟨source, .repeatedAttribute name⟩
      else typesOfElements source (attributes.insert name type) rest

end

def type (e : Expr) : Except TypeError TypeExpr :=
  e.typeAt false

end Expr

end TerraDoc.Hcl
