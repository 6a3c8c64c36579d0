import Mathlib.Data.List.Nodup
import TerraDoc.Proofs.ByteOrder
import TerraDoc.Proofs.LiteralParts
import TerraDoc.Proofs.QuotedSpelling
import TerraDoc.Proofs.TypeGrammar

/-!
The order of the elements of objects, at any depth, changes neither the value nor the type of an
expression. What an object in a value holds is named by different keys, and its text lists them in
the order of their bytes.
-/

namespace TerraDoc

/-- A value stands in another at some depth. -/
inductive Value.Within (part : Value) : Value → Prop where
  | self : Within part part
  | item {items : List Value} {item : Value} (member : item ∈ items)
      (deeper : Within part item) : Within part (.seq items)
  | entry {entries : List (String × Value)} {entry : String × Value} (member : entry ∈ entries)
      (deeper : Within part entry.2) : Within part (.map entries)

namespace Hcl.Expr

open Dictionary

/-- Two expressions that differ in the order of the elements of their objects at most, at any depth.
Whatever is not moved may begin elsewhere in the source, and what holds other expressions may be
spelled otherwise for it. -/
inductive Reordered : Expr → Expr → Prop where
  | number {slice slice' : Slice} (text : slice.text = slice'.text) :
      Reordered (.number slice) (.number slice')
  | bool {slice slice' : Slice} {b : Bool} : Reordered (.bool slice b) (.bool slice' b)
  | null {slice slice' : Slice} : Reordered (.null slice) (.null slice')
  | quoted {slice slice' : Slice} (text : slice.text = slice'.text) :
      Reordered (.quoted slice) (.quoted slice')
  | quotedTemplate {slice slice' : Slice} {inside inside' : List Expr}
      (length : inside.length = inside'.length)
      (each : ∀ pair ∈ inside.zip inside', Reordered pair.1 pair.2) :
      Reordered (.quotedTemplate slice inside) (.quotedTemplate slice' inside')
  | heredoc {slice slice' body body' : Slice} {indented : Bool} (text : body.text = body'.text) :
      Reordered (.heredoc slice indented body) (.heredoc slice' indented body')
  | heredocTemplate {slice slice' : Slice} {inside inside' : List Expr}
      (length : inside.length = inside'.length)
      (each : ∀ pair ∈ inside.zip inside', Reordered pair.1 pair.2) :
      Reordered (.heredocTemplate slice inside) (.heredocTemplate slice' inside')
  | tuple {slice slice' : Slice} {items items' : List Expr}
      (length : items.length = items'.length)
      (each : ∀ pair ∈ items.zip items', Reordered pair.1 pair.2) :
      Reordered (.tuple slice items) (.tuple slice' items')
  | object {slice slice' : Slice} {elements listed elements' : List (Expr × Expr)}
      (order : elements.Perm listed) (length : listed.length = elements'.length)
      (keys : ∀ pair ∈ listed.zip elements', Reordered pair.1.1 pair.2.1)
      (values : ∀ pair ∈ listed.zip elements', Reordered pair.1.2 pair.2.2) :
      Reordered (.object slice elements) (.object slice' elements')
  | reference {slice slice' : Slice} (text : slice.text = slice'.text) :
      Reordered (.reference slice) (.reference slice')
  | call {slice slice' function function' : Slice} {arguments arguments' : List Expr}
      {expanded : Bool} (name : function.text = function'.text)
      (length : arguments.length = arguments'.length)
      (each : ∀ pair ∈ arguments.zip arguments', Reordered pair.1 pair.2) :
      Reordered (.call slice function arguments expanded)
        (.call slice' function' arguments' expanded)
  | unary {slice slice' : Slice} {op : UnaryOp} {operand operand' : Expr}
      (inside : Reordered operand operand') :
      Reordered (.unary slice op operand) (.unary slice' op operand')
  | compound {slice slice' : Slice} {form : Form} {inside inside' : List Expr}
      (length : inside.length = inside'.length)
      (each : ∀ pair ∈ inside.zip inside', Reordered pair.1 pair.2) :
      Reordered (.compound slice form inside) (.compound slice' form inside')
  | parens {slice slice' : Slice} {inner inner' : Expr} (inside : Reordered inner inner') :
      Reordered (.parens slice inner) (.parens slice' inner')

theorem Reordered.unwrap {e e' : Expr} (reordered : Reordered e e') :
    Reordered e.unwrap e'.unwrap := by
  fun_induction Expr.unwrap e generalizing e' with
  | case1 slice inner ih =>
    cases reordered with
    | parens inside =>
      have deeper := ih inside
      exact deeper
  | case2 e other =>
    have bare : e'.unwrap = e' := by
      cases reordered with
      | parens => exact absurd rfl (other _ _)
      | _ => rfl
    rw [bare]
    exact reordered

theorem not_value_of_reference {e : Expr} {slice : Slice} (name : e.unwrap = .reference slice)
    (v : Value) : e.value ≠ .ok v := by
  intro same
  rw [← value_unwrap, name, Expr.value] at same
  · cases same
  all_goals simp

theorem key_eq_ok_iff_unwrap {e : Expr} {name : String} :
    e.key = .ok name ↔ (∃ slice, e.unwrap = .reference slice ∧ slice.string = name) ∨
      ∃ v, e.value = .ok v ∧ (v = .str name ∨ ∃ n, v = .num n ∧ n.toString = name) := by
  unfold Expr.key
  split
  · rename_i slice same
    simp [same, not_value_of_reference same]
  · rename_i other
    have bare : ¬ ∃ slice, e.unwrap = .reference slice ∧ slice.string = name :=
      fun ⟨slice, same, _⟩ => other slice same
    rw [Except.bind_eq_ok, or_iff_right bare]
    refine exists_congr fun v => and_congr_right fun _ => ?_
    cases v <;> simp [keyOfValue]

theorem Reordered.key_iff {e e' : Expr} (reordered : Reordered e e')
    (value : ∀ v, e.value = .ok v ↔ e'.value = .ok v) (name : String) :
    e.key = .ok name ↔ e'.key = .ok name := by
  have bare : (∃ slice, e.unwrap = .reference slice ∧ slice.string = name) ↔
      ∃ slice, e'.unwrap = .reference slice ∧ slice.string = name := by
    have inner := reordered.unwrap
    constructor
    · rintro ⟨slice, same, rfl⟩
      rw [same] at inner
      generalize e'.unwrap = other at inner
      cases inner with
      | reference text => exact ⟨_, rfl, congrArg String.ofList text.symm⟩
    · rintro ⟨slice, same, rfl⟩
      rw [same] at inner
      generalize e.unwrap = other at inner
      cases inner with
      | reference text => exact ⟨_, rfl, congrArg String.ofList text⟩
  rw [key_eq_ok_iff_unwrap, key_eq_ok_iff_unwrap, bare]
  simp only [value]

theorem not_value_of_isForeign {e : Expr} (foreign : e.isForeign = true) (v : Value) :
    e.value ≠ .ok v := by
  intro same
  rw [not_foreign_of_value same] at foreign
  cases foreign

/-- The order of the elements of objects does not change a value. -/
theorem Reordered.value_iff {e e' : Expr} (reordered : Reordered e e') (v : Value) :
    e.value = .ok v ↔ e'.value = .ok v := by
  induction reordered generalizing v with
  | number text => rw [Expr.value, Expr.value, text]
  | bool => rfl
  | quoted text => rw [Expr.value, Expr.value, text]
  | heredoc text => rw [Expr.value, Expr.value, text]
  | tuple length _ each =>
    rw [Expr.value, Expr.value, Except.map_eq_ok, Except.map_eq_ok]
    simp only [valueOfItems_eq_mapM, Except.mapM_iff_of_zip length each]
  | @object _ _ elements listed elements' order length keys _ keyValues values =>
    have same : List.Forall₂ (fun element element' => ∀ entry, Entered element entry ↔
        Entered element' entry) listed elements' := by
      refine List.forall₂_iff_zip.mpr ⟨length, fun {element element'} member entry => ?_⟩
      have named := (keys _ member).key_iff (keyValues _ member) entry.1
      exact and_congr named (values _ member entry.2)
    simp only [value_object_iff, Dictionary.collected_iff_of_perm order same]
  | unary _ ih =>
    rw [Expr.value, Expr.value, Except.bind_eq_ok, Except.bind_eq_ok]
    refine exists_congr fun operand => and_congr (ih operand) ?_
    split <;> simp
  | parens _ ih => rw [Expr.value, Expr.value, ih]
  | null | quotedTemplate | heredocTemplate | reference | call | compound =>
    exact iff_of_false (not_value_of_isForeign rfl v) (not_value_of_isForeign rfl v)

theorem typesOfItems_eq_mapM (items : List Expr) :
    typesOfItems items = items.mapM (typeAt false) := by
  induction items with
  | nil => rfl
  | cons item rest ih => rw [typesOfItems, List.mapM_cons, ih]

/-- An element gives an object type the attribute of its key and its type. -/
def Typed (element : Expr × Expr) (entry : String × TypeExpr) : Prop :=
  element.1.key = .ok entry.1 ∧ element.2.typeAt true = .ok entry.2

theorem typesOfElements_eq_ok_iff {source : String} {elements : List (Expr × Expr)}
    {before after : Dictionary TypeExpr} :
    typesOfElements source before elements = .ok after ↔
      ∃ entries, List.Forall₂ Typed elements entries ∧
        (entries.map Prod.fst).Nodup ∧ (∀ key ∈ entries.map Prod.fst, key ∉ before.map Prod.fst) ∧
        after = entries.foldl (fun dictionary (key, type) => dictionary.insert key type) before := by
  induction elements generalizing before with
  | nil => simp [typesOfElements, eq_comm]
  | cons element rest ih =>
    obtain ⟨key, e⟩ := element
    rw [typesOfElements_cons]
    constructor
    · rintro ⟨name, type, named, read, fresh, same⟩
      have added := (perm_insert type fresh).map Prod.fst
      obtain ⟨others, later, distinct, apart, rfl⟩ := ih.mp same
      simp only [added.mem_iff, List.map_cons, List.mem_cons, not_or] at apart
      refine ⟨(name, type) :: others, .cons ⟨key_eq_ok_iff.mpr named, read⟩ later, ?_, ?_, rfl⟩
      · exact List.nodup_cons.mpr ⟨fun inside => (apart name inside).1 rfl, distinct⟩
      · exact List.forall_mem_cons.mpr ⟨fresh, fun other inside => (apart other inside).2⟩
    · rintro ⟨_, each, distinct, apart, rfl⟩
      cases each with
      | @cons _ entry _ others first later =>
        obtain ⟨unrepeated, distinct⟩ := List.nodup_cons.mp distinct
        obtain ⟨fresh, apart⟩ := List.forall_mem_cons.mp apart
        have added := (perm_insert entry.2 fresh).map Prod.fst
        refine ⟨entry.1, entry.2, key_eq_ok_iff.mp first.1, first.2, fresh,
          ih.mpr ⟨others, later, distinct, fun other inside => ?_, rfl⟩⟩
        rw [added.mem_iff, List.map_cons, List.mem_cons, not_or]
        exact ⟨ne_of_mem_of_not_mem inside unrepeated, apart other inside⟩

theorem objectType_object_iff {source : String} {slice : Slice} {elements : List (Expr × Expr)}
    {type : TypeExpr} :
    (object slice elements).objectType source = .ok type ↔
      ∃ attributes, Collected Typed elements attributes ∧ type = .object attributes := by
  rw [objectType, Except.map_eq_ok]
  simp only [typesOfElements_eq_ok_iff, Collected, ofList]
  constructor
  · rintro ⟨_, ⟨entries, each, distinct, -, rfl⟩, rfl⟩
    exact ⟨_, ⟨entries, each, distinct, rfl⟩, rfl⟩
  · rintro ⟨_, ⟨entries, each, distinct, rfl⟩, rfl⟩
    exact ⟨_, ⟨entries, each, distinct, by simp, rfl⟩, rfl⟩

/-- What two expressions have in common as types, as lists of elements and as lists of
attributes. -/
structure TypedAlike (e e' : Expr) : Prop where
  type : ∀ direct type, e.typeAt direct = .ok type ↔ e'.typeAt direct = .ok type
  tuple : ∀ source source' type,
    e.tupleType source = .ok type ↔ e'.tupleType source' = .ok type
  object : ∀ source source' type,
    e.objectType source = .ok type ↔ e'.objectType source' = .ok type

theorem typeOfCall_iff {direct : Bool} {source source' name : String}
    {arguments arguments' : List Expr} (length : arguments.length = arguments'.length)
    (each : ∀ pair ∈ arguments.zip arguments', TypedAlike pair.1 pair.2) (type : TypeExpr) :
    typeOfCall direct source name arguments = .ok type ↔
      typeOfCall direct source' name arguments' = .ok type := by
  match arguments, arguments', length, each with
  | [], [], _, _ => simp [typeOfCall]
  | [argument], [argument'], _, each =>
    have alike := each (argument, argument') List.mem_cons_self
    rw [typeOfCall, typeOfCall]
    cases Collection.ofName? name with
    | some c => simp only [Except.map_eq_ok, alike.type]
    | none =>
      dsimp only
      split_ifs with tuple object optional
      · exact alike.tuple source source' type
      · exact alike.object source source' type
      · simp only [Except.map_eq_ok, alike.type]
      · simp
  | [argument, _], [argument', _], _, each =>
    have alike := each (argument, argument') List.mem_cons_self
    rw [typeOfCall, typeOfCall]
    split_ifs with optional
    · simp only [Except.map_eq_ok, alike.type]
    · simp
  | _ :: _ :: _ :: _, _ :: _ :: _ :: _, _, _ => simp [typeOfCall]

/-- The order of the elements of objects does not change a type. -/
theorem Reordered.typedAlike {e e' : Expr} (reordered : Reordered e e') : TypedAlike e e' := by
  induction reordered with
  | number | bool | null | quotedTemplate | heredoc | heredocTemplate | unary | compound =>
    exact ⟨by simp [typeAt], by simp [tupleType], by simp [objectType]⟩
  | quoted text =>
    refine ⟨fun direct type => ?_, by simp [tupleType], by simp [objectType]⟩
    rw [typeAt, typeAt, typeOfQuoted, typeOfQuoted, Slice.string, Slice.string, text]
  | reference text =>
    refine ⟨fun direct type => ?_, by simp [tupleType], by simp [objectType]⟩
    rw [typeAt, typeAt, typeOfName, typeOfName, Slice.string, Slice.string, text]
  | tuple length _ each =>
    refine ⟨by simp [typeAt], fun source source' type => ?_, by simp [objectType]⟩
    rw [tupleType, tupleType, Except.map_eq_ok, Except.map_eq_ok]
    simp only [typesOfItems_eq_mapM,
      Except.mapM_iff_of_zip length fun pair member => (each pair member).type false]
  | @object _ _ elements listed elements' order length keys _ _ alike =>
    refine ⟨by simp [typeAt], by simp [tupleType], fun source source' type => ?_⟩
    have same : List.Forall₂ (fun element element' => ∀ entry, Typed element entry ↔
        Typed element' entry) listed elements' := by
      refine List.forall₂_iff_zip.mpr ⟨length, fun {element element'} member entry => ?_⟩
      have named := (keys _ member).key_iff (keys _ member).value_iff entry.1
      exact and_congr named ((alike _ member).type true entry.2)
    simp only [objectType_object_iff, Dictionary.collected_iff_of_perm order same]
  | call name length _ each =>
    refine ⟨fun direct type => ?_, by simp [tupleType], by simp [objectType]⟩
    rw [typeAt, typeAt, Slice.string, Slice.string, name]
    exact typeOfCall_iff length each type
  | parens _ ih =>
    refine ⟨fun direct type => ?_, fun source source' type => ?_, fun source source' type => ?_⟩
    · rw [typeAt, typeAt, ih.type]
    · rw [tupleType, tupleType, ih.tuple source source']
    · rw [objectType, objectType, ih.object source source']

theorem not_object_within_name {slice name : Slice} {elements : List (Expr × Expr)} {e : Expr}
    (word : e.unwrap = .reference name) : ¬ Within (.object slice elements) e := by
  intro within
  induction within with
  | self => cases word
  | step direct _ ih =>
    cases direct with
    | inner => exact ih word
    | _ => cases word

/-- The maps in the value of a part are in the value of the whole. -/
theorem map_within_of_part {part e : Expr} (direct : Part part e) {v w : Value}
    (same : e.value = .ok v) (inner : part.value = .ok w) {entries : Dictionary Value}
    (deep : Value.Within (.map entries) w) : Value.Within (.map entries) v := by
  have plain := not_foreign_of_value same
  cases direct with
  | quotedTemplate | heredocTemplate | argument | inside => cases plain
  | item member =>
    rw [Expr.value, Except.map_eq_ok] at same
    obtain ⟨values, each, rfl⟩ := same
    rw [valueOfItems_eq_mapM, Except.mapM_eq_ok_iff] at each
    obtain ⟨_, inside, given⟩ := exists_of_mem_left each member
    cases given.symm.trans inner
    exact .item inside deep
  | @key slice elements element member =>
    obtain ⟨dictionary, collected, rfl⟩ := value_object_iff.mp same
    obtain ⟨entry, -, named, -⟩ := collected.gives_mem member
    rw [key_of_value inner] at named
    cases deep with
    | self | item | entry => cases named
  | @element slice elements element member =>
    obtain ⟨dictionary, collected, rfl⟩ := value_object_iff.mp same
    obtain ⟨entry, inside, -, given⟩ := collected.gives_mem member
    cases given.symm.trans inner
    exact .entry inside deep
  | operand =>
    rw [Expr.value, Except.bind_eq_ok] at same
    obtain ⟨_, given, same⟩ := same
    cases given.symm.trans inner
    cases deep with
    | self | item | entry => simp [applyUnary] at same
  | inner =>
    rw [Expr.value] at same
    cases same.symm.trans inner
    exact deep

theorem map_of_object_within {slice : Slice} {elements : List (Expr × Expr)} {e : Expr}
    (within : Within (.object slice elements) e) {v : Value} (same : e.value = .ok v) :
    ∃ entries, Dictionary.Collected Entered elements entries ∧
      Value.Within (.map entries) v := by
  induction within generalizing v with
  | self =>
    obtain ⟨entries, collected, rfl⟩ := value_object_iff.mp same
    exact ⟨entries, collected, .self⟩
  | @step next e direct deeper ih =>
    obtain ⟨w, inner⟩ | ⟨_, _, _, _, _, _, name, word, _⟩ := value_or_key_of_part direct same
    · obtain ⟨entries, collected, deep⟩ := ih inner
      exact ⟨entries, collected, map_within_of_part direct same inner deep⟩
    · exact absurd deeper (not_object_within_name word)

theorem keys_of_object_within {slice : Slice} {elements : List (Expr × Expr)} {e : Expr}
    (within : Within (.object slice elements) e) {v : Value} (same : e.value = .ok v) :
    ∃ names entries,
      List.Forall₂ (fun element name => element.1.key = .ok name) elements names ∧
        names.Nodup ∧ (object slice elements).value = .ok (.map entries) ∧
        names.Perm (entries.map Prod.fst) ∧ Value.Within (.map entries) v := by
  obtain ⟨entries, collected, deep⟩ := map_of_object_within within same
  obtain ⟨names, each, distinct, listed⟩ := collected.keys
  exact ⟨names, entries, each.imp fun _ _ ⟨_, named, _⟩ => named, distinct,
    value_object_iff.mpr ⟨entries, collected, rfl⟩, listed, deep⟩

/-- The ways to spell a name as a key: as it is, in quotes with any escapes, or as a number that is
displayed so. -/
inductive KeySpelling (name : List Char) : Expr → Prop where
  | bare {slice : Slice} (text : slice.text = name) : KeySpelling name (.reference slice)
  | quoted {slice : Slice} {choices : List (Char × Quoted.Spelling)}
      (fits : ∀ choice ∈ choices, choice.2.Fits choice.1) (spells : choices.map Prod.fst = name)
      (text : slice.text = '"' :: (Quoted.spelled choices ++ ['"'])) :
      KeySpelling name (.quoted slice)
  | number {slice : Slice} {n : Number} (read : Number.parse slice.text = .ok n)
      (shown : n.text = name) : KeySpelling name (.number slice)

theorem KeySpelling.key_eq {name : List Char} {key : Expr} (spelling : KeySpelling name key) :
    key.key = .ok (String.ofList name) := by
  cases spelling with
  | bare text => exact congrArg (fun text => Except.ok (String.ofList text)) text
  | quoted fits spells text =>
    have decoded := Quoted.decode_quotes (Quoted.unescape_spelled fits)
    rw [← text, spells] at decoded
    refine key_eq_ok_iff.mpr (.text ?_)
    rw [Expr.value, decoded]
    rfl
  | @number slice n read shown =>
    rw [← shown]
    refine key_eq_ok_iff.mpr (.number ?_)
    rw [Expr.value, read]
    rfl

theorem error_of_spelled_twice {slice : Slice} {elements : List (Expr × Expr)}
    {first second : Expr × Expr} {name : List Char} (twice : [first, second].Sublist elements)
    (one : KeySpelling name first.1) (other : KeySpelling name second.1) :
    ∃ cause, (object slice elements).value = .error cause := by
  refine Except.error_of_not_ok fun v same => ?_
  obtain ⟨names, _, each, distinct, -⟩ := keys_of_object_within .self same
  have listed : elements.map (fun element => element.1.key) = names.map .ok := by
    rw [← List.forall₂_eq_eq_eq, List.forall₂_map_left_iff, List.forall₂_map_right_iff]
    exact each
  have unrepeated : (elements.map fun element => element.1.key).Nodup :=
    listed ▸ List.Nodup.map (fun _ _ => Except.ok.inj) distinct
  have apart := (twice.map fun element => element.1.key).nodup unrepeated
  simp [one.key_eq, other.key_eq] at apart

theorem unwrap_ne_parens (e : Expr) (slice : Slice) (inner : Expr) :
    e.unwrap ≠ .parens slice inner := by
  fun_induction Expr.unwrap e with
  | case1 outer inside ih => exact ih
  | case2 e other => exact other slice inner

theorem applyUnary_eq_some {op : UnaryOp} {operand result : Value}
    (same : applyUnary op operand = some result) :
    (∃ n, result = .num n) ∨ ∃ b, result = .bool b := by
  unfold applyUnary at same
  split at same <;> cases same
  · exact .inl ⟨_, rfl⟩
  · exact .inr ⟨_, rfl⟩

/-- Only tuples and objects, perhaps in parentheses, have parts of their values. -/
theorem unwrap_of_value {e : Expr} {v : Value} (same : e.value = .ok v) :
    (∀ items, v = .seq items → ∃ slice list, e.unwrap = .tuple slice list ∧
      valueOfItems list = .ok items) ∧
    ∀ entries, v = .map entries → ∃ slice elements, e.unwrap = .object slice elements ∧
      Dictionary.Collected Entered elements entries := by
  rw [← value_unwrap] at same
  have plain := not_foreign_of_value same
  have bare := unwrap_ne_parens e
  cases form : e.unwrap with
  | parens => exact absurd form (bare _ _)
  | null | quotedTemplate | heredocTemplate | reference | call | compound =>
    rw [form] at plain
    cases plain
  | tuple slice list =>
    rw [form, Expr.value, Except.map_eq_ok] at same
    obtain ⟨items, inside, rfl⟩ := same
    exact ⟨fun _ equal => Value.seq.inj equal ▸ ⟨slice, list, rfl, inside⟩, by simp⟩
  | object slice elements =>
    rw [form, value_object_iff] at same
    obtain ⟨entries, collected, rfl⟩ := same
    exact ⟨by simp, fun _ equal => Value.map.inj equal ▸ ⟨slice, elements, rfl, collected⟩⟩
  | number =>
    rw [form, Expr.value, Except.map_eq_ok] at same
    obtain ⟨n, -, rfl⟩ := same
    simp
  | bool =>
    rw [form, Expr.value] at same
    cases same
    simp
  | quoted =>
    rw [form, Expr.value, Except.map_eq_ok] at same
    obtain ⟨text, -, rfl⟩ := same
    simp
  | heredoc =>
    rw [form, Expr.value] at same
    cases same
    simp
  | unary =>
    rw [form, Expr.value, Except.bind_eq_ok] at same
    obtain ⟨operand, -, same⟩ := same
    split at same
    · rename_i result applied
      cases same
      obtain ⟨n, rfl⟩ | ⟨b, rfl⟩ := applyUnary_eq_some applied <;> simp
    · cases same

theorem ordered_of_within_value {e : Expr} {v : Value} (same : e.value = .ok v)
    {entries : Dictionary Value} (within : Value.Within (.map entries) v) :
    entries.Ordered := by
  induction within generalizing e with
  | self =>
    obtain ⟨slice, elements, -, collected⟩ := (unwrap_of_value same).2 entries rfl
    exact collected.ordered
  | item member _ ih =>
    obtain ⟨slice, list, -, inside⟩ := (unwrap_of_value same).1 _ rfl
    rw [valueOfItems_eq_mapM] at inside
    obtain ⟨item, -, same⟩ := Except.mem_of_mapM_eq_ok inside member
    exact ih same
  | entry member _ ih =>
    obtain ⟨slice, elements, -, collected⟩ := (unwrap_of_value same).2 _ rfl
    obtain ⟨element, -, given⟩ := collected.mem member
    exact ih given.2

theorem bytes_ascend {entries : Dictionary Value} (ordered : entries.Ordered) :
    (entries.map fun entry => Text.Utf8.encode entry.1.toList).Pairwise (· < ·) := by
  rw [List.pairwise_map]
  exact List.Pairwise.imp (fun {first second} smaller =>
    (Text.Utf8.encode_lt_iff first.1 second.1).mpr smaller) ordered

/-- The order of the elements of objects never matters: at any depth it changes neither the value
of an expression nor its type, nor whether it has them. The keys of every object in a value give
different names, however they are spelled, and the text of every map in it lists the keys in the
order of their bytes. -/
theorem element_order_irrelevant {e e' : Expr} (reordered : Reordered e e') :
    ((∃ v, e.value = .ok v ∧ e'.value = .ok v) ∨
      ((∃ cause, e.value = .error cause) ∧ ∃ cause, e'.value = .error cause)) ∧
    ((∃ type, e.type = .ok type ∧ e'.type = .ok type) ∨
      ((∃ fault, e.type = .error fault) ∧ ∃ fault, e'.type = .error fault)) ∧
    (∀ v, e.value = .ok v →
      (∀ slice elements, Within (.object slice elements) e → ∃ names entries,
        List.Forall₂ (fun element name => element.1.key = .ok name) elements names ∧
          names.Nodup ∧ (object slice elements).value = .ok (.map entries) ∧
          names.Perm (entries.map Prod.fst) ∧ Value.Within (.map entries) v) ∧
      ∀ entries, Value.Within (.map entries) v →
        (entries.map fun entry => Text.Utf8.encode entry.1.toList).Pairwise (· < ·) ∧
          (Value.map entries).canonicalText =
            '{' :: ([',', ' '].intercalate (entries.map Value.canonicalEntry) ++ ['}'])) ∧
    ∀ slice elements first second name, [first, second].Sublist elements →
      KeySpelling name first.1 → KeySpelling name second.1 →
        ∃ cause, (object slice elements).value = .error cause := by
  refine ⟨Except.both_or_neither reordered.value_iff,
    Except.both_or_neither (reordered.typedAlike.type false),
    fun v same => ⟨fun slice elements within => keys_of_object_within within same,
      fun entries within => ?_⟩, fun _ _ _ _ _ => error_of_spelled_twice⟩
  exact ⟨bytes_ascend (ordered_of_within_value same within), Value.canonicalText_map entries⟩

def backwardElements : Expr :=
  .object ⟨0, "\x7bb=[\x7by=1,x=2\x7d],\"a\"=true\x7d".toList⟩
    [(.reference ⟨1, ['b']⟩, .tuple ⟨3, "[\x7by=1,x=2\x7d]".toList⟩
        [.object ⟨4, "\x7by=1,x=2\x7d".toList⟩
          [(.reference ⟨5, ['y']⟩, .number ⟨7, ['1']⟩),
            (.reference ⟨9, ['x']⟩, .number ⟨11, ['2']⟩)]]),
      (.quoted ⟨15, "\"a\"".toList⟩, .bool ⟨19, "true".toList⟩ true)]

def forwardElements : Expr :=
  .object ⟨0, "\x7b\"a\"=true,b=[\x7bx=2,y=1\x7d]\x7d".toList⟩
    [(.quoted ⟨1, "\"a\"".toList⟩, .bool ⟨5, "true".toList⟩ true),
      (.reference ⟨10, ['b']⟩, .tuple ⟨12, "[\x7bx=2,y=1\x7d]".toList⟩
        [.object ⟨13, "\x7bx=2,y=1\x7d".toList⟩
          [(.reference ⟨14, ['x']⟩, .number ⟨16, ['2']⟩),
            (.reference ⟨18, ['y']⟩, .number ⟨20, ['1']⟩)]])]

theorem backwardElements_reordered : Reordered backwardElements forwardElements := by
  refine .object (.swap _ _ []) rfl ?_ ?_
  · simp only [List.zip_cons_cons, List.zip_nil_left, List.forall_mem_cons]
    exact ⟨.quoted rfl, .reference rfl, by simp⟩
  · simp only [List.zip_cons_cons, List.zip_nil_left, List.forall_mem_cons]
    refine ⟨.bool, .tuple rfl ?_, by simp⟩
    rw [List.zip_cons_cons, List.zip_nil_left, List.forall_mem_singleton]
    refine .object (.swap _ _ []) rfl ?_ ?_
    · simp only [List.zip_cons_cons, List.zip_nil_left, List.forall_mem_cons]
      exact ⟨.reference rfl, .reference rfl, by simp⟩
    · simp only [List.zip_cons_cons, List.zip_nil_left, List.forall_mem_cons]
      exact ⟨.number rfl, .number rfl, by simp⟩

theorem element_order_irrelevant_nested :
    Reordered backwardElements forwardElements ∧
      ∃ v, backwardElements.value = .ok v ∧ forwardElements.value = .ok v := by
  refine ⟨backwardElements_reordered, ?_⟩
  have read : backwardElements.value.toOption.isSome = true := by decide +kernel
  rcases (element_order_irrelevant backwardElements_reordered).1 with both | ⟨⟨cause, fails⟩, -⟩
  · exact both
  · rw [fails] at read
    cases read

/-- Numbers of one value are one key, and so is their text in quotes. -/
example : KeySpelling ['1'] (.number ⟨0, ['1']⟩) ∧ KeySpelling ['1'] (.number ⟨0, "1.0".toList⟩) ∧
    KeySpelling ['1'] (.quoted ⟨0, "\"\\u0031\"".toList⟩) := by
  have code : ∀ choice ∈ [('1', Quoted.Spelling.code "0031".toList)], choice.2.Fits choice.1 := by
    rw [List.forall_mem_singleton]
    exact ⟨rfl, [0, 0, 3, 1], by decide, by decide⟩
  have short : Number.parse ['1'] = .ok (.ofNat 1) := by decide +kernel
  have long : Number.parse "1.0".toList = .ok (.ofNat 1) := by decide +kernel
  have shown : (Number.ofNat 1).text = ['1'] := by decide +kernel
  exact ⟨.number short shown, .number long shown, .quoted code rfl rfl⟩

end Hcl.Expr

end TerraDoc
