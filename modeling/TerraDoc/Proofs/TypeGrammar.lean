import TerraDoc.Hcl.Block
import TerraDoc.Proofs.DictionaryOrder
import TerraDoc.Proofs.Results

/-!
The grammar of type expressions, and that the reader of types follows it: what has a type is what
the grammar derives, and the type that is read lists the attributes of objects in order.
-/

namespace TerraDoc.Hcl

/-- The names that a key can give to an attribute: a bare name stands for itself, a literal string
or number for its text. -/
inductive Names : Expr → String → Prop where
  | word (slice : Slice) : Names (.reference slice) slice.string
  | text {key : Expr} {text : String} (same : key.value = .ok (.str text)) : Names key text
  | number {key : Expr} {n : Number} (same : key.value = .ok (.num n)) : Names key n.toString
  | parens {slice : Slice} {inner : Expr} {name : String} (inside : Names inner name) :
      Names (.parens slice inner) name

/-- The types that have a quoted name in old configurations. -/
inductive Legacy : String → TypeExpr → Prop where
  | string : Legacy "string" (.primitive .string)
  | list : Legacy "list" (.collection .list (.primitive .string))
  | map : Legacy "map" (.collection .map (.primitive .string))

mutual

/-- The types that expressions spell. An object's attributes have different names and may be listed
in any order. Only what is `direct`, the whole type of an attribute, can be optional. With `lax` the
last argument of a constructor may be expanded, which the language of types does not have. -/
inductive Spells (lax : Bool) : Bool → Expr → TypeExpr → Prop where
  | primitive {direct : Bool} {slice : Slice} {p : Primitive} (name : slice.string = p.name) :
      Spells lax direct (.reference slice) (.primitive p)
  | legacy {direct : Bool} {slice : Slice} {text : List Char} {type : TypeExpr}
      (read : Quoted.decode slice.text = .ok text) (old : Legacy (String.ofList text) type) :
      Spells lax direct (.quoted slice) type
  | collection {direct : Bool} {slice function : Slice} {argument : Expr} {expanded : Bool}
      {c : Collection} {element : TypeExpr} (name : function.string = c.name)
      (plain : expanded = true → lax = true) (inside : Spells lax false argument element) :
      Spells lax direct (.call slice function [argument] expanded) (.collection c element)
  | tuple {direct : Bool} {slice function inner : Slice} {argument : Expr} {expanded : Bool}
      {items : List Expr} {types : List TypeExpr} (name : function.string = "tuple")
      (plain : expanded = true → lax = true) (list : argument.unwrap = .tuple inner items)
      (each : SpellEach lax items types) :
      Spells lax direct (.call slice function [argument] expanded) (.tuple types)
  | object {direct : Bool} {slice function inner : Slice} {argument : Expr} {expanded : Bool}
      {elements : List (Expr × Expr)} {listed attributes : List (String × TypeExpr)}
      (name : function.string = "object") (plain : expanded = true → lax = true)
      (map : argument.unwrap = .object inner elements)
      (each : SpellAttributes lax elements listed)
      (distinct : (listed.map Prod.fst).Nodup) (order : listed.Perm attributes) :
      Spells lax direct (.call slice function [argument] expanded) (.object attributes)
  | optional {slice function : Slice} {argument : Expr} {default : List Expr} {expanded : Bool}
      {type : TypeExpr} (name : function.string = "optional")
      (plain : expanded = true → lax = true) (few : default.length ≤ 1)
      (inside : Spells lax false argument type) :
      Spells lax true (.call slice function (argument :: default) expanded) (.optional type)
  | parens {direct : Bool} {slice : Slice} {inner : Expr} {type : TypeExpr}
      (inside : Spells lax direct inner type) : Spells lax direct (.parens slice inner) type

inductive SpellEach (lax : Bool) : List Expr → List TypeExpr → Prop where
  | nil : SpellEach lax [] []
  | cons {item : Expr} {items : List Expr} {type : TypeExpr} {types : List TypeExpr}
      (first : Spells lax false item type) (later : SpellEach lax items types) :
      SpellEach lax (item :: items) (type :: types)

inductive SpellAttributes (lax : Bool) :
    List (Expr × Expr) → List (String × TypeExpr) → Prop where
  | nil : SpellAttributes lax [] []
  | cons {key e : Expr} {elements : List (Expr × Expr)} {name : String} {type : TypeExpr}
      {listed : List (String × TypeExpr)} (named : Names key name)
      (first : Spells lax true e type) (later : SpellAttributes lax elements listed) :
      SpellAttributes lax ((key, e) :: elements) ((name, type) :: listed)

end

/-- An expression is a type, with no argument list expanded. -/
def IsType (e : Expr) : Prop :=
  ∃ type, Spells false false e type

/-- The parts of an expression that are read for a type. The default of an optional attribute is
not. -/
inductive TypePart (part : Expr) : Expr → Prop where
  | here : TypePart part part
  | argument {slice function : Slice} {argument : Expr} {others : List Expr} {expanded : Bool}
      (inside : TypePart part argument) :
      TypePart part (.call slice function (argument :: others) expanded)
  | item {slice : Slice} {items : List Expr} {item : Expr} (member : item ∈ items)
      (inside : TypePart part item) : TypePart part (.tuple slice items)
  | element {slice : Slice} {elements : List (Expr × Expr)} {element : Expr × Expr}
      (member : element ∈ elements) (inside : TypePart part element.2) :
      TypePart part (.object slice elements)
  | parens {slice : Slice} {inner : Expr} (inside : TypePart part inner) :
      TypePart part (.parens slice inner)

/-- An argument list that is read for a type is expanded. -/
def Expanded (e : Expr) : Prop :=
  ∃ slice function arguments, TypePart (.call slice function arguments true) e

theorem Primitive.ofName?_eq_some_iff {name : String} {p : Primitive} :
    Primitive.ofName? name = some p ↔ name = p.name := by
  constructor
  · intro same
    unfold Primitive.ofName? at same
    split at same <;> cases same <;> rfl
  · rintro rfl
    cases p <;> rfl

theorem Collection.ofName?_eq_some_iff {name : String} {c : Collection} :
    Collection.ofName? name = some c ↔ name = c.name := by
  constructor
  · intro same
    unfold Collection.ofName? at same
    split at same <;> cases same <;> rfl
  · rintro rfl
    cases c <;> rfl

theorem names_of_unwrap {key : Expr} {slice : Slice} (same : key.unwrap = .reference slice) :
    Names key slice.string := by
  fun_induction Expr.unwrap key with
  | case1 outer inner ih => exact .parens (ih same)
  | case2 => exact same ▸ .word slice

theorem key_of_value {key : Expr} {v : Value} (same : key.value = .ok v) :
    key.key = Expr.keyOfValue key v := by
  unfold Expr.key
  split
  · rename_i slice name
    rw [← Expr.value_unwrap, name, Expr.value] at same
    · cases same
    all_goals simp
  · rw [same]
    rfl

theorem key_parens {slice : Slice} {inner : Expr} {name : String} (named : inner.key = .ok name) :
    (Expr.parens slice inner).key = .ok name := by
  unfold Expr.key at named ⊢
  rw [Expr.unwrap]
  split at named
  · rename_i word same
    simp only [named]
  · obtain ⟨v, same, named⟩ := Except.bind_eq_ok.mp named
    have whole : (Expr.parens slice inner).value = .ok v := by rw [Expr.value, same]
    rw [whole]
    cases v with
    | str | num => exact named
    | bool | seq | map => cases named

/-- The names that keys give are those of the grammar. -/
theorem key_eq_ok_iff {key : Expr} {name : String} : key.key = .ok name ↔ Names key name := by
  constructor
  · intro named
    unfold Expr.key at named
    split at named
    · rename_i slice same
      cases named
      exact names_of_unwrap same
    · obtain ⟨v, same, named⟩ := Except.bind_eq_ok.mp named
      cases v with
      | str text =>
        cases named
        exact .text same
      | num n =>
        cases named
        exact .number same
      | bool | seq | map => cases named
  · intro names
    induction names with
    | word slice => rfl
    | text same => rw [key_of_value same, Expr.keyOfValue]
    | number same => rw [key_of_value same, Expr.keyOfValue]
    | parens _ ih => exact key_parens ih

namespace Expr

theorem tupleType_eq_ok {source : String} {argument : Expr} {type : TypeExpr}
    (same : argument.tupleType source = .ok type) :
    ∃ slice items types, argument.unwrap = .tuple slice items ∧
      typesOfItems items = .ok types ∧ type = .tuple types := by
  fun_induction Expr.unwrap argument with
  | case1 slice inner ih =>
    rw [tupleType] at same
    exact ih same
  | case2 e other =>
    cases e with
    | tuple slice items =>
      rw [tupleType] at same
      obtain ⟨types, inside, rfl⟩ := Except.map_eq_ok.mp same
      exact ⟨slice, items, types, rfl, inside, rfl⟩
    | parens slice inner => exact absurd rfl (other slice inner)
    | _ => simp [tupleType] at same

theorem tupleType_of_unwrap (source : String) {argument : Expr} {slice : Slice}
    {items : List Expr} (list : argument.unwrap = .tuple slice items) :
    argument.tupleType source = (typesOfItems items).map .tuple := by
  fun_induction Expr.unwrap argument with
  | case1 outer inner ih => rw [tupleType, ih list]
  | case2 e other => rw [list, tupleType]

theorem objectType_eq_ok {source : String} {argument : Expr} {type : TypeExpr}
    (same : argument.objectType source = .ok type) :
    ∃ slice elements attributes, argument.unwrap = .object slice elements ∧
      typesOfElements source [] elements = .ok attributes ∧ type = .object attributes := by
  fun_induction Expr.unwrap argument with
  | case1 slice inner ih =>
    rw [objectType] at same
    exact ih same
  | case2 e other =>
    cases e with
    | object slice elements =>
      rw [objectType] at same
      obtain ⟨attributes, inside, rfl⟩ := Except.map_eq_ok.mp same
      exact ⟨slice, elements, attributes, rfl, inside, rfl⟩
    | parens slice inner => exact absurd rfl (other slice inner)
    | _ => simp [objectType] at same

theorem objectType_of_unwrap (source : String) {argument : Expr} {slice : Slice}
    {elements : List (Expr × Expr)} (map : argument.unwrap = .object slice elements) :
    argument.objectType source = (typesOfElements source [] elements).map .object := by
  fun_induction Expr.unwrap argument with
  | case1 outer inner ih => rw [objectType, ih map]
  | case2 e other => rw [map, objectType]

/-- All that a call of a constructor can be a type for. -/
theorem typeOfCall_cases {direct : Bool} {source name : String} {arguments : List Expr}
    {type : TypeExpr} (same : typeOfCall direct source name arguments = .ok type) :
    (∃ argument c element, arguments = [argument] ∧ name = Collection.name c ∧
        argument.typeAt false = .ok element ∧ type = .collection c element) ∨
      (∃ argument, arguments = [argument] ∧ name = "tuple" ∧
        argument.tupleType source = .ok type) ∨
      (∃ argument, arguments = [argument] ∧ name = "object" ∧
        argument.objectType source = .ok type) ∨
      ∃ argument default inner, arguments = argument :: default ∧ default.length ≤ 1 ∧
        name = "optional" ∧ direct = true ∧ argument.typeAt false = .ok inner ∧
        type = .optional inner := by
  match arguments with
  | [] =>
    rw [typeOfCall] at same
    · cases same
    all_goals simp
  | [argument] =>
    rw [typeOfCall] at same
    split at same
    · rename_i c known
      obtain ⟨element, inside, rfl⟩ := Except.map_eq_ok.mp same
      exact .inl ⟨argument, c, element, rfl, Collection.ofName?_eq_some_iff.mp known, inside, rfl⟩
    split at same
    · exact .inr (.inl ⟨argument, rfl, ‹_›, same⟩)
    split at same
    · exact .inr (.inr (.inl ⟨argument, rfl, ‹_›, same⟩))
    split at same
    · rename_i optional
      obtain ⟨inner, inside, rfl⟩ := Except.map_eq_ok.mp same
      rw [Bool.and_eq_true, decide_eq_true_iff] at optional
      exact .inr (.inr (.inr
        ⟨argument, [], inner, rfl, by simp, optional.1, optional.2, inside, rfl⟩))
    · cases same
  | [argument, default] =>
    rw [typeOfCall] at same
    split at same
    · rename_i optional
      obtain ⟨inner, inside, rfl⟩ := Except.map_eq_ok.mp same
      rw [Bool.and_eq_true, decide_eq_true_iff] at optional
      exact .inr (.inr (.inr
        ⟨argument, [default], inner, rfl, by simp, optional.1, optional.2, inside, rfl⟩))
    · cases same
  | _ :: _ :: _ :: _ =>
    rw [typeOfCall] at same
    · cases same
    all_goals simp

end Expr

theorem TypePart.of_unwrap {part e : Expr} (inside : TypePart part e.unwrap) : TypePart part e := by
  fun_induction Expr.unwrap e with
  | case1 slice inner ih => exact .parens (ih inside)
  | case2 => exact inside

theorem TypePart.unwrap {part e : Expr} (bare : ∀ slice inner, part ≠ .parens slice inner)
    (inside : TypePart part e) : TypePart part e.unwrap := by
  fun_induction Expr.unwrap e with
  | case1 slice inner ih =>
    cases inside with
    | here => exact absurd rfl (bare slice inner)
    | parens inside => exact ih inside
  | case2 => exact inside

theorem TypePart.trans {part whole e : Expr} (first : TypePart part whole)
    (later : TypePart whole e) : TypePart part e := by
  induction later with
  | here => exact first
  | argument _ ih => exact .argument ih
  | item member _ ih => exact .item member ih
  | element member _ ih => exact .element member ih
  | parens _ ih => exact .parens ih

theorem TypePart.sizeOf_le {part e : Expr} (inside : TypePart part e) : sizeOf part ≤ sizeOf e := by
  induction inside with
  | here => exact Nat.le_refl _
  | argument =>
    rw [Expr.call.sizeOf_spec, List.cons.sizeOf_spec]
    omega
  | item member =>
    have smaller := List.sizeOf_lt_of_mem member
    rw [Expr.tuple.sizeOf_spec]
    omega
  | @element slice elements element member =>
    have smaller := List.sizeOf_lt_of_mem member
    obtain ⟨key, e⟩ := element
    rw [Prod.mk.sizeOf_spec] at smaller
    rw [Expr.object.sizeOf_spec]
    dsimp only at *
    omega
  | parens =>
    rw [Expr.parens.sizeOf_spec]
    omega

/-- What is a type by the grammar has no expanded argument list. -/
theorem Spells.not_expanded {direct : Bool} {e : Expr} {type : TypeExpr}
    (spells : Spells false direct e type) : ¬ Expanded e := by
  refine @Spells.rec false (fun _ e _ _ => ¬ Expanded e)
    (fun items _ _ => ∀ item ∈ items, ¬ Expanded item)
    (fun elements _ _ => ∀ element ∈ elements, ¬ Expanded element.2)
    ?primitive ?legacy ?collection ?tuple ?object ?optional ?parens ?nil ?cons ?none ?more _ _ _
    spells
  case primitive | legacy =>
    intros
    rintro ⟨_, _, _, ⟨⟩⟩
  case collection | optional =>
    intros
    rintro ⟨_, _, _, _ | inside⟩
    · simp_all
    · exact absurd ⟨_, _, _, inside⟩ ‹¬ Expanded _›
  case tuple =>
    intro direct slice function inner argument expanded items types name plain list each ih
    rintro ⟨_, _, _, _ | inside⟩
    · simp_all
    · have inside := inside.unwrap (by simp)
      rw [list] at inside
      cases inside with
      | item member inside => exact ih _ member ⟨_, _, _, inside⟩
  case object =>
    intro direct slice function inner argument expanded elements listed attributes name plain map
      each distinct order ih
    rintro ⟨_, _, _, _ | inside⟩
    · simp_all
    · have inside := inside.unwrap (by simp)
      rw [map] at inside
      cases inside with
      | element member inside => exact ih _ member ⟨_, _, _, inside⟩
  case parens =>
    intro direct slice inner type _ ih
    rintro ⟨_, _, _, inside⟩
    cases inside with
    | parens inside => exact ih ⟨_, _, _, inside⟩
  case nil | none => simp
  case cons =>
    intro item items type types _ _ first later other member
    rcases List.mem_cons.mp member with rfl | inside
    · exact first
    · exact later other inside
  case more =>
    intro key e elements name type listed _ _ _ first later other member
    rcases List.mem_cons.mp member with rfl | inside
    · exact first
    · exact later other inside

theorem not_expanded_part {lax : Bool} {part e : Expr} (within : TypePart part e)
    (plain : lax = true ∨ ¬ Expanded e) : lax = true ∨ ¬ Expanded part := by
  refine plain.imp_right fun none => ?_
  rintro ⟨slice, function, arguments, inside⟩
  exact none ⟨slice, function, arguments, inside.trans within⟩

theorem not_expanded_call {lax : Bool} {slice function : Slice} {arguments : List Expr}
    {expanded : Bool} (plain : lax = true ∨ ¬ Expanded (.call slice function arguments expanded)) :
    expanded = true → lax = true := by
  rintro rfl
  exact plain.resolve_right fun none => none ⟨slice, function, arguments, .here⟩

theorem spellEach_of_typesOfItems {lax : Bool} {items : List Expr} {types : List TypeExpr}
    (each : ∀ item ∈ items, ∀ type, item.typeAt false = .ok type → Spells lax false item type)
    (same : Expr.typesOfItems items = .ok types) : SpellEach lax items types := by
  induction items generalizing types with
  | nil =>
    cases same
    exact .nil
  | cons item rest ih =>
    rw [Expr.typesOfItems] at same
    obtain ⟨type, first, same⟩ := Except.bind_eq_ok.mp same
    obtain ⟨others, later, same⟩ := Except.bind_eq_ok.mp same
    cases same
    exact .cons (each item List.mem_cons_self type first)
      (ih (fun other member => each other (List.mem_cons_of_mem _ member)) later)

theorem typesOfElements_cons {source : String} {key e : Expr} {rest : List (Expr × Expr)}
    {before after : Dictionary TypeExpr} :
    Expr.typesOfElements source before ((key, e) :: rest) = .ok after ↔
      ∃ name type, Names key name ∧ e.typeAt true = .ok type ∧ name ∉ before.map Prod.fst ∧
        Expr.typesOfElements source (before.insert name type) rest = .ok after := by
  rw [Expr.typesOfElements]
  constructor
  · intro same
    obtain ⟨name, named, same⟩ := Except.bind_eq_ok.mp same
    obtain ⟨type, read, same⟩ := Except.bind_eq_ok.mp same
    split at same
    · cases same
    · rename_i fresh
      rw [Option.not_isSome_iff_eq_none, Dictionary.find?_eq_none_iff] at fresh
      exact ⟨name, type, key_eq_ok_iff.mp (Except.mapError_eq_ok.mp named), read, fresh, same⟩
  · rintro ⟨name, type, named, read, fresh, same⟩
    rw [← Dictionary.find?_eq_none_iff] at fresh
    rw [key_eq_ok_iff.mpr named, read]
    show (if (before.find? name).isSome then _ else _) = _
    rw [fresh]
    exact same

/-- The attributes that are read are those before and those listed, no name twice. -/
theorem spellAttributes_of_typesOfElements {lax : Bool} {source : String}
    {elements : List (Expr × Expr)} {before after : Dictionary TypeExpr}
    (each : ∀ element ∈ elements, ∀ type, element.2.typeAt true = .ok type →
      Spells lax true element.2 type)
    (same : Expr.typesOfElements source before elements = .ok after)
    (distinct : (before.map Prod.fst).Nodup) :
    ∃ listed, SpellAttributes lax elements listed ∧ (before ++ listed).Perm after ∧
      (after.map Prod.fst).Nodup := by
  induction elements generalizing before with
  | nil =>
    cases same
    exact ⟨[], .nil, by simp, distinct⟩
  | cons element rest ih =>
    obtain ⟨key, e⟩ := element
    obtain ⟨name, type, named, read, fresh, same⟩ := typesOfElements_cons.mp same
    have added := Dictionary.perm_insert type fresh
    have unrepeated : ((before.insert name type).map Prod.fst).Nodup :=
      (added.map Prod.fst).nodup_iff.mpr (List.nodup_cons.mpr ⟨fresh, distinct⟩)
    obtain ⟨listed, later, order, distinct⟩ :=
      ih (fun other member => each other (List.mem_cons_of_mem _ member)) same unrepeated
    refine ⟨(name, type) :: listed, .cons named (each _ List.mem_cons_self type read) later, ?_,
      distinct⟩
    exact List.perm_middle.trans ((added.symm.append_right listed).trans order)

theorem spells_of_typeOfQuoted {lax direct : Bool} {slice : Slice} {type : TypeExpr}
    (same : Expr.typeOfQuoted slice = .ok type) : Spells lax direct (.quoted slice) type := by
  unfold Expr.typeOfQuoted at same
  split at same
  · cases same
  · rename_i text read
    refine .legacy read ?_
    split at same <;> cases same
    · rename_i name
      exact name ▸ .string
    · rename_i name
      exact name ▸ .list
    · rename_i name
      exact name ▸ .map

theorem spells_of_typeOfName {lax direct : Bool} {slice : Slice} {type : TypeExpr}
    (same : Expr.typeOfName slice = .ok type) : Spells lax direct (.reference slice) type := by
  unfold Expr.typeOfName at same
  split at same
  · rename_i p known
    cases same
    exact .primitive (Primitive.ofName?_eq_some_iff.mp known)
  · split at same <;> cases same

/-- What has a type spells it. -/
theorem spells_of_typeAt {lax direct : Bool} (e : Expr) {type : TypeExpr}
    (plain : lax = true ∨ ¬ Expanded e) (same : e.typeAt direct = .ok type) :
    Spells lax direct e type := by
  induction e using (measure fun e : Expr => sizeOf e).wf.induction generalizing direct type with
  | _ e ih =>
  cases e with
  | parens slice inner =>
    rw [Expr.typeAt] at same
    refine .parens (ih inner ?_ (not_expanded_part (.parens .here) plain) same)
    show sizeOf inner < sizeOf (Expr.parens slice inner)
    rw [Expr.parens.sizeOf_spec]
    omega
  | reference slice =>
    rw [Expr.typeAt] at same
    exact spells_of_typeOfName same
  | quoted slice =>
    rw [Expr.typeAt] at same
    exact spells_of_typeOfQuoted same
  | call slice function arguments expanded =>
    rw [Expr.typeAt] at same
    have mark := not_expanded_call plain
    -- items and elements that are read stand deeper than the argument: in brackets and parentheses
    have inner (argument : Expr) (default : List Expr) (split : arguments = argument :: default)
        (part : Expr) (within : TypePart part argument) {direct : Bool} {type : TypeExpr}
        (read : part.typeAt direct = .ok type) : Spells lax direct part type := by
      subst split
      refine ih part ?_ (not_expanded_part (.argument within) plain) read
      have smaller := within.sizeOf_le
      show sizeOf part < sizeOf (Expr.call slice function (argument :: default) expanded)
      rw [Expr.call.sizeOf_spec, List.cons.sizeOf_spec]
      omega
    rcases Expr.typeOfCall_cases same with ⟨argument, c, element, rfl, name, read, rfl⟩ |
      ⟨argument, rfl, name, read⟩ | ⟨argument, rfl, name, read⟩ |
      ⟨argument, default, type, rfl, few, name, rfl, read, rfl⟩
    · exact .collection name mark (inner argument _ rfl argument .here read)
    · obtain ⟨inside, items, types, list, each, rfl⟩ := Expr.tupleType_eq_ok read
      refine .tuple name mark list
        (spellEach_of_typesOfItems (fun item member type read => ?_) each)
      exact inner argument _ rfl item (.of_unwrap (list ▸ .item member .here)) read
    · obtain ⟨inside, elements, attributes, map, each, rfl⟩ := Expr.objectType_eq_ok read
      have whole (element : Expr × Expr) (member : element ∈ elements) (type : TypeExpr)
          (read : element.2.typeAt true = .ok type) : Spells lax true element.2 type :=
        inner argument _ rfl element.2 (.of_unwrap (map ▸ .element member .here)) read
      obtain ⟨listed, spelled, order, distinct⟩ :=
        spellAttributes_of_typesOfElements whole each (by simp)
      exact .object name mark map spelled ((order.map Prod.fst).nodup_iff.mpr distinct) order
    · exact .optional name mark few (inner argument _ rfl argument .here read)
  | quotedTemplate slice inside =>
    rw [Expr.typeAt] at same
    cases same
  | _ =>
    rw [Expr.typeAt] at same
    · cases same
    all_goals simp

namespace TypeExpr

mutual

/-- A type with the attributes of its objects in order. -/
def ordered : TypeExpr → TypeExpr
  | primitive p => primitive p
  | collection c element => collection c element.ordered
  | tuple elements => tuple (orderedEach elements)
  | object attributes => object (Dictionary.ofList (orderedAttributes attributes))
  | optional type => optional type.ordered

def orderedEach : List TypeExpr → List TypeExpr
  | [] => []
  | type :: rest => type.ordered :: orderedEach rest

def orderedAttributes : List (String × TypeExpr) → List (String × TypeExpr)
  | [] => []
  | (name, type) :: rest => (name, type.ordered) :: orderedAttributes rest

end

theorem orderedAttributes_eq_map (attributes : List (String × TypeExpr)) :
    orderedAttributes attributes = attributes.map fun (name, type) => (name, type.ordered) := by
  induction attributes with
  | nil => rfl
  | cons entry rest ih => rw [orderedAttributes, ih, List.map_cons]

theorem orderedAttributes_names (attributes : List (String × TypeExpr)) :
    (orderedAttributes attributes).map Prod.fst = attributes.map Prod.fst := by
  rw [orderedAttributes_eq_map, List.map_map]
  rfl

end TypeExpr

theorem Legacy.typeOfQuoted {slice : Slice} {text : List Char} {type : TypeExpr}
    (read : Quoted.decode slice.text = .ok text) (old : Legacy (String.ofList text) type) :
    Expr.typeOfQuoted slice = .ok type ∧ type.ordered = type := by
  simp only [Expr.typeOfQuoted, read]
  generalize String.ofList text = name at old
  cases old with
  | string | list | map => exact ⟨rfl, rfl⟩

/-- What spells a type has it, with its attributes in order. -/
theorem Spells.typeAt {lax direct : Bool} {e : Expr} {type : TypeExpr}
    (spells : Spells lax direct e type) : e.typeAt direct = .ok type.ordered := by
  refine @Spells.rec lax (fun direct e type _ => e.typeAt direct = .ok type.ordered)
    (fun items types _ => Expr.typesOfItems items = .ok (TypeExpr.orderedEach types))
    (fun elements listed _ => ∀ source (before : Dictionary TypeExpr),
      ((before ++ listed).map Prod.fst).Nodup →
        Expr.typesOfElements source before elements =
          .ok ((TypeExpr.orderedAttributes listed).foldl
            (fun dictionary (name, type) => dictionary.insert name type) before))
    ?primitive ?legacy ?collection ?tuple ?object ?optional ?parens ?nil ?cons ?none ?more _ _ _
    spells
  case primitive =>
    intro direct slice p name
    rw [Expr.typeAt, Expr.typeOfName, Primitive.ofName?_eq_some_iff.mpr name]
    rfl
  case legacy =>
    intro direct slice text type read old
    obtain ⟨same, ordered⟩ := old.typeOfQuoted read
    rw [Expr.typeAt, same, ordered]
  case collection =>
    intro direct slice function argument expanded c element name _ _ inside
    rw [Expr.typeAt, Expr.typeOfCall, Collection.ofName?_eq_some_iff.mpr name]
    simp only [inside]
    rfl
  case tuple =>
    intro direct slice function inner argument expanded items types name _ list _ inside
    rw [Expr.typeAt, Expr.typeOfCall, name]
    simp only [Collection.ofName?, Expr.tupleType_of_unwrap _ list, inside]
    rfl
  case object =>
    intro direct slice function inner argument expanded elements listed attributes name _ map _
      distinct order inside
    rw [Expr.typeAt, Expr.typeOfCall, name]
    have read := inside slice.string [] distinct
    have same : Dictionary.ofList (TypeExpr.orderedAttributes listed) =
        Dictionary.ofList (TypeExpr.orderedAttributes attributes) := by
      refine Dictionary.ofList_eq_of_perm ?_ (by rwa [TypeExpr.orderedAttributes_names])
      rw [TypeExpr.orderedAttributes_eq_map, TypeExpr.orderedAttributes_eq_map]
      exact order.map _
    simp only [Collection.ofName?, Expr.objectType_of_unwrap _ map, read]
    rw [TypeExpr.ordered, ← same]
    rfl
  case optional =>
    intro slice function argument default expanded type name _ few _ inside
    rw [Expr.typeAt, name]
    rcases default with _ | ⟨other, _ | ⟨another, more⟩⟩
    · rw [Expr.typeOfCall]
      simp only [Collection.ofName?, inside]
      rfl
    · rw [Expr.typeOfCall]
      simp only [inside]
      rfl
    · simp at few
  case parens =>
    intro direct slice inner type _ inside
    rw [Expr.typeAt, inside]
  case nil => rfl
  case cons =>
    intro item items type types _ _ first later
    rw [Expr.typesOfItems, first, later]
    rfl
  case none =>
    intro source before _
    rfl
  case more =>
    intro key e elements name type listed named _ _ first later source before distinct
    have moved : (before ++ (name, type) :: listed).Perm ((name, type) :: before ++ listed) :=
      List.perm_middle
    have apart := (moved.map Prod.fst).nodup_iff.mp distinct
    have fresh : name ∉ before.map Prod.fst := by
      rw [List.cons_append, List.map_cons, List.nodup_cons, List.map_append, List.mem_append,
        not_or] at apart
      exact apart.1.1
    have added := (Dictionary.perm_insert type.ordered fresh).append_right listed
    refine typesOfElements_cons.mpr ⟨name, type.ordered, named, first, fresh, ?_⟩
    rw [later source _ ?_]
    · rfl
    · exact (added.map Prod.fst).nodup_iff.mpr apart

theorem ordered_of_typeAt {direct : Bool} {e : Expr} {type : TypeExpr}
    (same : e.typeAt direct = .ok type) : type.ordered = type := by
  have spells : Spells true direct e type := spells_of_typeAt e (.inl rfl) same
  have again := spells.typeAt
  rw [same] at again
  exact (Except.ok.inj again).symm

theorem isType_iff {e : Expr} : IsType e ↔ (∃ type, e.type = .ok type) ∧ ¬ Expanded e := by
  constructor
  · rintro ⟨type, spells⟩
    exact ⟨⟨_, spells.typeAt⟩, spells.not_expanded⟩
  · rintro ⟨⟨type, same⟩, plain⟩
    exact ⟨type, spells_of_typeAt e (.inr plain) same⟩

/-- Type expressions without expanded argument lists are accepted exactly by their grammar, and
everything else is an error. -/
theorem type_accepted_by_grammar {e : Expr} (plain : ¬ Expanded e) :
    ((∃ type, e.type = .ok type) ↔ IsType e) ∧
      ((∃ fault, e.type = .error fault) ↔ ¬ IsType e) := by
  have accepted : (∃ type, e.type = .ok type) ↔ IsType e := by
    rw [isType_iff, and_iff_left plain]
  refine ⟨accepted, ?_⟩
  rw [← accepted]
  cases e.type <;> simp

/-- An optional attribute whose default is an expanded call. -/
def optionalAttribute : Expr :=
  .call ⟨0, "object(\x7ba=optional(any,f(b...))\x7d)".toList⟩ ⟨0, "object".toList⟩
    [.object ⟨7, "\x7ba=optional(any,f(b...))\x7d".toList⟩
      [(.reference ⟨8, ['a']⟩,
        .call ⟨10, "optional(any,f(b...))".toList⟩ ⟨10, "optional".toList⟩
          [.reference ⟨19, "any".toList⟩,
            .call ⟨23, "f(b...)".toList⟩ ⟨23, ['f']⟩ [.reference ⟨25, ['b']⟩] true] false)]] false

theorem type_accepted_by_grammar_optional :
    ¬ Expanded optionalAttribute ∧ IsType optionalAttribute := by
  have plain : ¬ Expanded optionalAttribute := by
    rintro ⟨_, _, _, _ | inside⟩
    cases inside with
    | element member inside =>
      rw [List.mem_singleton.mp member] at inside
      rcases inside with _ | inside
      cases inside
  exact ⟨plain, (type_accepted_by_grammar plain).1.mp ⟨.object [("a", .optional (.primitive .any))],
    rfl⟩⟩

/-- A type with an expanded argument list. -/
def expandedList : List Char :=
  "variable \"x\" \x7b\n  type = list(string...)\n\x7d\n".toList

/-- Whether an expression is a call with an expanded argument list. -/
def isExpandedCall : Expr → Bool
  | .call _ _ _ true => true
  | _ => false

theorem expanded_of_isExpandedCall {e : Expr} (found : isExpandedCall e = true) : Expanded e := by
  unfold isExpandedCall at found
  split at found
  · exact ⟨_, _, _, .here⟩
  · cases found

/-- An expanded argument list is no argument of a type, and yet it is taken for one. -/
theorem expanded_argument_taken :
    ∃ file declared, parse? expandedList = some file ∧
      file.blocks.head?.bind (Block.attribute? "type") = some declared ∧
      ¬ IsType declared.value ∧
      ∃ type, declared.value.type = .ok type ∧ type.canonical = "list(string)" := by
  have checked : ((parse? expandedList).any fun file =>
      (file.blocks.head?.bind (Block.attribute? "type")).any fun declared =>
        isExpandedCall declared.value &&
          declared.value.type.toOption.any (·.canonical == "list(string)")) = true := by
    decide +kernel
  obtain ⟨file, declared, read, same, good⟩ := Option.exists_of_any_any checked
  rw [Bool.and_eq_true] at good
  obtain ⟨type, accepted, text⟩ := (Option.any_eq_true _ _).mp good.2
  have expanded : Expanded declared.value := expanded_of_isExpandedCall good.1
  exact ⟨file, declared, read, same, fun isType => (isType_iff.mp isType).2 expanded, type,
    Except.toOption_eq_some.mp accepted, by simpa using text⟩

end TerraDoc.Hcl
