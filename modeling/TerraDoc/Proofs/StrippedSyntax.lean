import Mathlib.Data.List.Forall2
import TerraDoc.Module.Declaration
import TerraDoc.Proofs.LiteralParts
import TerraDoc.Proofs.Results

namespace TerraDoc.Hcl

/-- A piece of a source, wherever it stands. -/
def Slice.unplaced (slice : Slice) : Slice :=
  ⟨0, slice.text⟩

def Slice.none : Slice :=
  ⟨0, []⟩

namespace Expr

mutual

/-- An expression without its places and the texts of what is made of other expressions. -/
def stripped : Expr → Expr
  | number slice => number slice.unplaced
  | bool slice b => bool slice.unplaced b
  | null slice => null slice.unplaced
  | quoted slice => quoted slice.unplaced
  | quotedTemplate _ inside => quotedTemplate .none (strippedItems inside)
  | heredoc slice indented body => heredoc slice.unplaced indented body.unplaced
  | heredocTemplate _ inside => heredocTemplate .none (strippedItems inside)
  | tuple _ items => tuple .none (strippedItems items)
  | object _ elements => object .none (strippedElements elements)
  | reference slice => reference slice.unplaced
  | call _ function arguments expanded =>
      call .none function.unplaced (strippedItems arguments) expanded
  | unary _ op operand => unary .none op operand.stripped
  | compound _ form inside => compound .none form (strippedItems inside)
  | parens _ inner => parens .none inner.stripped

def strippedItems : List Expr → List Expr
  | [] => []
  | item :: rest => item.stripped :: strippedItems rest

def strippedElements : List (Expr × Expr) → List (Expr × Expr)
  | [] => []
  | (key, value) :: rest => (key.stripped, value.stripped) :: strippedElements rest

end

theorem strippedItems_eq (items : List Expr) : strippedItems items = items.map stripped := by
  induction items with
  | nil => rfl
  | cons item rest ih => rw [strippedItems, ih, List.map_cons]

theorem unwrap_stripped (e : Expr) : e.stripped.unwrap = e.unwrap.stripped := by
  fun_induction Expr.unwrap e with
  | case1 slice inner ih => rw [stripped, unwrap, ih]
  | case2 e other => cases e <;> first | rfl | exact absurd rfl (other _ _)

theorem isNull_stripped (e : Expr) : e.stripped.isNull = e.isNull := by
  rw [isNull, isNull, unwrap_stripped]
  cases e.unwrap <;> rfl

end Expr

end TerraDoc.Hcl

namespace TerraDoc

/-- An error without the source text of the expression that it quotes. -/
def LiteralError.stripped : LiteralError → LiteralError
  | .notLiteral _ => .notLiteral ""
  | .keyKind _ kind => .keyKind "" kind
  | .inDefault declared cause => .inDefault declared cause.stripped
  | error => error

/-- An error without the source text of the expression that it quotes. -/
def Hcl.TypeError.stripped (error : TypeError) : TypeError :=
  ⟨"", error.fault⟩

namespace Hcl

namespace Expr

open Except

theorem keyOfValue_stripped (first second : Expr) (v : Value) :
    (keyOfValue first v).mapError LiteralError.stripped =
      (keyOfValue second v).mapError LiteralError.stripped := by
  cases v <;> rfl

theorem key_stripped_of {e : Expr}
    (same : e.stripped.value.mapError LiteralError.stripped = e.value.mapError LiteralError.stripped) :
    e.stripped.key.mapError LiteralError.stripped = e.key.mapError LiteralError.stripped := by
  have computed := mapError_bind_congr same fun v => keyOfValue_stripped e.stripped e v
  rw [key, key, unwrap_stripped]
  cases e.unwrap <;> first | rfl | exact computed

mutual

theorem value_stripped : ∀ e : Expr,
    e.stripped.value.mapError LiteralError.stripped = e.value.mapError LiteralError.stripped
  | number _ | bool _ _ | quoted _ | heredoc _ _ _ => rfl
  | null _ | quotedTemplate _ _ | heredocTemplate _ _ | reference _ | call _ _ _ _
  | compound _ _ _ => rfl
  | tuple _ items => by
    rw [stripped, value, value, mapError_map, mapError_map, valueOfItems_stripped items]
  | object _ elements =>
    mapError_bind_congr (valueOfElements_stripped elements) fun _ => rfl
  | unary slice op operand => by
    rw [stripped, value, value]
    refine mapError_bind_congr (value_stripped operand) fun v => ?_
    cases applyUnary op v <;> rfl
  | parens _ inner => value_stripped inner

theorem valueOfItems_stripped : ∀ items : List Expr,
    (valueOfItems (strippedItems items)).mapError LiteralError.stripped =
      (valueOfItems items).mapError LiteralError.stripped
  | [] => rfl
  | item :: rest =>
    mapError_bind_congr (value_stripped item) fun _ =>
      mapError_bind_congr (valueOfItems_stripped rest) fun _ => rfl

theorem valueOfElements_stripped : ∀ elements : List (Expr × Expr),
    (valueOfElements (strippedElements elements)).mapError LiteralError.stripped =
      (valueOfElements elements).mapError LiteralError.stripped
  | [] => rfl
  | (key, element) :: rest => by
    rw [strippedElements, valueOfElements_step, valueOfElements_step]
    exact mapError_bind_congr (key_stripped_of (value_stripped key)) fun _ =>
      mapError_bind_congr (value_stripped element) fun _ =>
        mapError_bind_congr (valueOfElements_stripped rest) fun _ => rfl

end

theorem key_stripped (e : Expr) :
    e.stripped.key.mapError LiteralError.stripped = e.key.mapError LiteralError.stripped :=
  key_stripped_of (value_stripped e)

mutual

theorem typeAt_stripped (direct : Bool) : ∀ e : Expr,
    (e.stripped.typeAt direct).mapError TypeError.stripped = (e.typeAt direct).mapError TypeError.stripped
  | number _ | bool _ _ | null _ | quoted _ | quotedTemplate _ _ | heredoc _ _ _
  | heredocTemplate _ _ | tuple _ _ | object _ _ | reference _ | unary _ _ _
  | compound _ _ _ => rfl
  | call slice function arguments _ =>
      typeOfCall_stripped direct "" slice.string function.string arguments
  | parens _ inner => typeAt_stripped direct inner

theorem typeOfCall_stripped (direct : Bool) (source other name : String) : ∀ arguments : List Expr,
    (typeOfCall direct source name (strippedItems arguments)).mapError TypeError.stripped =
      (typeOfCall direct other name arguments).mapError TypeError.stripped
  | [] => rfl
  | [argument] => by
    rw [strippedItems, strippedItems, typeOfCall, typeOfCall]
    split
    · rw [mapError_map, mapError_map, typeAt_stripped false argument]
    · split
      · exact tupleType_stripped source other argument
      · split
        · exact objectType_stripped source other argument
        · split
          · rw [mapError_map, mapError_map, typeAt_stripped false argument]
          · rfl
  | [argument, _] => by
    rw [strippedItems, strippedItems, strippedItems, typeOfCall, typeOfCall]
    split
    · rw [mapError_map, mapError_map, typeAt_stripped false argument]
    · rfl
  | _ :: _ :: _ :: _ => rfl

theorem tupleType_stripped (source other : String) : ∀ e : Expr,
    (e.stripped.tupleType source).mapError TypeError.stripped =
      (e.tupleType other).mapError TypeError.stripped
  | tuple _ items => by
    rw [stripped, tupleType, tupleType, mapError_map, mapError_map, typesOfItems_stripped items]
  | parens _ inner => tupleType_stripped source other inner
  | number _ | bool _ _ | null _ | quoted _ | quotedTemplate _ _ | heredoc _ _ _
  | heredocTemplate _ _ | object _ _ | reference _ | call _ _ _ _ | unary _ _ _
  | compound _ _ _ => rfl

theorem objectType_stripped (source other : String) : ∀ e : Expr,
    (e.stripped.objectType source).mapError TypeError.stripped =
      (e.objectType other).mapError TypeError.stripped
  | object _ elements => by
    rw [stripped, objectType, objectType, mapError_map, mapError_map,
      typesOfElements_stripped source other [] elements]
  | parens _ inner => objectType_stripped source other inner
  | number _ | bool _ _ | null _ | quoted _ | quotedTemplate _ _ | heredoc _ _ _
  | heredocTemplate _ _ | tuple _ _ | reference _ | call _ _ _ _ | unary _ _ _
  | compound _ _ _ => rfl

theorem typesOfItems_stripped : ∀ items : List Expr,
    (typesOfItems (strippedItems items)).mapError TypeError.stripped =
      (typesOfItems items).mapError TypeError.stripped
  | [] => rfl
  | item :: rest =>
    mapError_bind_congr (typeAt_stripped false item) fun _ =>
      mapError_bind_congr (typesOfItems_stripped rest) fun _ => rfl

theorem typesOfElements_stripped (source other : String) (attributes : Dictionary TypeExpr) :
    ∀ elements : List (Expr × Expr),
    (typesOfElements source attributes (strippedElements elements)).mapError TypeError.stripped =
      (typesOfElements other attributes elements).mapError TypeError.stripped
  | [] => rfl
  | (name, type) :: rest => by
    rw [strippedElements, typesOfElements, typesOfElements]
    refine mapError_bind_congr ?_ fun key => mapError_bind_congr (typeAt_stripped true type) fun t => ?_
    · rw [mapError_mapError, mapError_mapError]
      exact mapError_congr (key_stripped name) fun _ _ => rfl
    · split
      · rfl
      · exact typesOfElements_stripped source other _ rest

end

end Expr

def Label.stripped : Label → Label
  | .name slice => .name slice.unplaced
  | .quoted slice => .quoted slice.unplaced

mutual

/-- An attribute or a block without its places and the texts of its expressions. -/
def Item.stripped : Item → Item
  | .attr name value => .attr name.unplaced value.stripped
  | .block kind labels body =>
      .block kind.unplaced (labels.map Label.stripped) (strippedBody body)

def strippedBody : List Item → List Item
  | [] => []
  | item :: rest => item.stripped :: strippedBody rest

end

def Content.stripped : Content → Content
  | .body items => .body (strippedBody items)
  | .object value => .object value.stripped

theorem strippedBody_eq (items : List Item) : strippedBody items = items.map Item.stripped := by
  induction items with
  | nil => rfl
  | cons item rest ih => rw [strippedBody, ih, List.map_cons]

theorem Label.text_stripped (label : Label) : label.stripped.text = label.text := by
  cases label <;> rfl

/-- Attributes of one name that are null, have a value or stand for a type in the same way. Where
they do not, the errors differ at most in the source text that they quote. -/
structure Attribute.Alike (first second : Attribute) : Prop where
  name : first.name = second.name
  isNull : first.value.isNull = second.value.isNull
  value : first.value.value.mapError LiteralError.stripped =
    second.value.value.mapError LiteralError.stripped
  type : first.value.type.mapError TypeError.stripped =
    second.value.type.mapError TypeError.stripped

/-- Blocks of one kind with the same labels and attributes that are alike. -/
structure Block.Alike (first second : Block) : Prop where
  kind : first.kind = second.kind
  labels : first.labels = second.labels
  attributes : List.Forall₂ Attribute.Alike first.attributes second.attributes

theorem Attribute.Alike.of_stripped {name : String} {first second : Expr}
    (same : first.stripped = second.stripped) :
    Attribute.Alike ⟨name, first⟩ ⟨name, second⟩ where
  name := rfl
  isNull := by rw [← Expr.isNull_stripped, same, Expr.isNull_stripped]
  value := by rw [← Expr.value_stripped, same, Expr.value_stripped]
  type := by
    rw [Expr.type, Expr.type, ← Expr.typeAt_stripped, same, Expr.typeAt_stripped]

theorem forall₂_map_eq {α β : Type} {f : α → β} {first second : List α} :
    List.Forall₂ (fun a b => f a = f b) first second ↔ first.map f = second.map f := by
  rw [← List.forall₂_eq_eq_eq, List.forall₂_map_left_iff, List.forall₂_map_right_iff]

theorem Slice.string_of_unplaced {first second : Slice} (same : first.unplaced = second.unplaced) :
    first.string = second.string := by
  rw [Slice.string, Slice.string, (Slice.mk.inj same).2]

theorem Item.attribute?_alike ⦃first second : Item⦄ (same : first.stripped = second.stripped) :
    Option.Rel Attribute.Alike first.attribute? second.attribute? := by
  cases first with
  | attr name value =>
    cases second with
    | attr other value' =>
      obtain ⟨named, valued⟩ := Item.attr.inj same
      rw [attribute?, attribute?, Slice.string_of_unplaced named]
      exact .some (.of_stripped valued)
    | block => cases same
  | block kind labels body =>
    cases second with
    | attr => cases same
    | block => exact .none

theorem Item.block?_alike (source other : List Char) ⦃first second : Item⦄
    (same : first.stripped = second.stripped) :
    Option.Rel Block.Alike (first.block? source) (second.block? other) := by
  cases first with
  | attr =>
    cases second with
    | attr => exact .none
    | block => cases same
  | block kind labels body =>
    cases second with
    | attr => cases same
    | block kind' labels' body' =>
      obtain ⟨kinds, labelled, inside⟩ := Item.block.inj same
      rw [strippedBody_eq, strippedBody_eq] at inside
      refine .some ⟨Slice.string_of_unplaced kinds, ?_,
        List.rel_filterMap Item.attribute?_alike (forall₂_map_eq.mpr inside)⟩
      have texts := congrArg (List.map Label.text) labelled
      rw [List.map_map, List.map_map] at texts
      rwa [show Label.text ∘ Label.stripped = Label.text from funext Label.text_stripped] at texts

/-- Files whose contents are the same where they are stripped have blocks that are alike. -/
theorem File.blocks_alike {first second : File}
    (same : first.content.stripped = second.content.stripped) :
    List.Forall₂ Block.Alike first.blocks second.blocks := by
  unfold File.blocks
  cases here : first.content with
  | body items =>
    cases there : second.content with
    | body others =>
      rw [here, there] at same
      have bodies := Content.body.inj same
      rw [strippedBody_eq, strippedBody_eq] at bodies
      exact List.rel_filterMap (Item.block?_alike first.source second.source)
        (forall₂_map_eq.mpr bodies)
    | object =>
      rw [here, there] at same
      cases same
  | object =>
    cases there : second.content with
    | body others =>
      rw [here, there] at same
      cases same
    | object => exact .nil

end Hcl

namespace Module

open Hcl

/-- An error without the place of a block and the source text that it quotes. -/
def DeclarationError.stripped : DeclarationError → DeclarationError
  | .unnamed kind _ => .unnamed kind 0
  | .type cause => .type cause.stripped
  | .default cause => .default cause.stripped

variable {first second : Block}

theorem attribute?_alike (alike : first.Alike second) (name : String) :
    Option.Rel Attribute.Alike (first.attribute? name) (second.attribute? name) := by
  have attributes := alike.attributes
  unfold Block.attribute?
  generalize first.attributes = here at *
  generalize second.attributes = there at *
  induction attributes with
  | nil => exact .none
  | @cons a b _ _ related _ ih =>
    rw [List.find?_cons, List.find?_cons, related.name]
    cases b.name == name
    · exact ih
    · exact .some related

theorem declaredName_alike (alike : first.Alike second) :
    (declaredName first).mapError DeclarationError.stripped =
      (declaredName second).mapError DeclarationError.stripped := by
  unfold declaredName
  rw [Block.name?, Block.name?, alike.labels, alike.kind]
  split
  · split <;> rfl
  · rfl

theorem description_alike (alike : first.Alike second) :
    description first = description second := by
  have related := attribute?_alike alike "description"
  unfold description
  generalize first.attribute? "description" = here at *
  generalize second.attribute? "description" = there at *
  cases related with
  | none => rfl
  | @some a b same =>
    have values := same.value
    dsimp only
    cases valued : a.value.value with
    | ok v =>
      rw [valued] at values
      rw [Except.mapError_eq_ok.mp values.symm]
    | error cause =>
      rw [valued] at values
      obtain ⟨other, fails, -⟩ := Except.mapError_eq_error.mp values.symm
      rw [fails]

theorem declaredType_alike (alike : first.Alike second) :
    (declaredType first).mapError DeclarationError.stripped =
      (declaredType second).mapError DeclarationError.stripped := by
  have related := attribute?_alike alike "type"
  unfold declaredType
  generalize first.attribute? "type" = here at *
  generalize second.attribute? "type" = there at *
  cases related with
  | none => rfl
  | @some a b same =>
    have types := congrArg (Except.mapError DeclarationError.type) same.type
    rw [Except.mapError_mapError, Except.mapError_mapError] at types
    dsimp only
    rw [Except.mapError_map, Except.mapError_map, Except.mapError_mapError,
      Except.mapError_mapError]
    exact congrArg (Except.map TypeExpr.canonical) types

theorem defaultValue?_alike (alike : first.Alike second) (name : String) :
    (defaultValue? name first).mapError DeclarationError.stripped =
      (defaultValue? name second).mapError DeclarationError.stripped := by
  have related := attribute?_alike alike "default"
  unfold defaultValue?
  generalize first.attribute? "default" = here at *
  generalize second.attribute? "default" = there at *
  cases related with
  | none => rfl
  | @some a b same =>
    have values := congrArg
      (Except.mapError fun cause => DeclarationError.default (.inDefault name cause)) same.value
    rw [Except.mapError_mapError, Except.mapError_mapError] at values
    dsimp only
    rw [same.isNull]
    split
    · rfl
    · rw [Except.mapError_map, Except.mapError_map, Except.mapError_mapError,
        Except.mapError_mapError]
      exact congrArg (Except.map some) values

theorem variableOf_alike (alike : first.Alike second) :
    (variableOf first).mapError DeclarationError.stripped =
      (variableOf second).mapError DeclarationError.stripped := by
  unfold variableOf
  rw [description_alike alike]
  exact Except.mapError_bind_congr (declaredName_alike alike) fun name =>
    Except.mapError_bind_congr (declaredType_alike alike) fun _ =>
      Except.mapError_bind_congr (defaultValue?_alike alike name) fun _ => rfl

theorem outputOf_alike (alike : first.Alike second) :
    (outputOf first).mapError DeclarationError.stripped =
      (outputOf second).mapError DeclarationError.stripped := by
  unfold outputOf
  rw [description_alike alike]
  exact Except.mapError_bind_congr (declaredName_alike alike) fun _ => rfl

theorem declarations_alike {blocks others : List Block}
    (alike : List.Forall₂ Block.Alike blocks others) :
    (declarations blocks).mapError DeclarationError.stripped =
      (declarations others).mapError DeclarationError.stripped := by
  induction alike with
  | nil => rfl
  | @cons first second blocks others related _ ih =>
    rw [declarations, declarations, related.kind]
    split
    · exact Except.mapError_bind_congr (variableOf_alike related) fun _ =>
        Except.mapError_bind_congr ih fun _ => rfl
    · split
      · exact Except.mapError_bind_congr (outputOf_alike related) fun _ =>
          Except.mapError_bind_congr ih fun _ => rfl
      · exact ih

end Module

end TerraDoc
