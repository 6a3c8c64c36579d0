import TerraDoc.Proofs.ExpressionReading
import TerraDoc.Proofs.ExpressionScan
import TerraDoc.Proofs.TypeGrammar

namespace TerraDoc.Hcl

/-- The attributes of a type that an expression spells are named by bare names. -/
def BareAttributes (e : Expr) : Prop :=
  ∀ slice elements, TypePart (.object slice elements) e → ∀ element ∈ elements,
    ∃ name : Slice, element.1 = .reference name ∧ BareName name.text

/-- A type that can be written down: its attributes have different bare names, and only the whole
type of an attribute is optional. -/
inductive TypeExpr.Writable : Bool → TypeExpr → Prop where
  | primitive {direct : Bool} (p : Primitive) : Writable direct (.primitive p)
  | collection {direct : Bool} (c : Collection) {element : TypeExpr}
      (inside : Writable false element) : Writable direct (.collection c element)
  | tuple {direct : Bool} {elements : List TypeExpr}
      (each : ∀ element ∈ elements, Writable false element) : Writable direct (.tuple elements)
  | object {direct : Bool} {attributes : List (String × TypeExpr)}
      (distinct : (attributes.map Prod.fst).Nodup)
      (named : ∀ entry ∈ attributes, BareName entry.1.toList)
      (each : ∀ entry ∈ attributes, Writable true entry.2) : Writable direct (.object attributes)
  | optional {type : TypeExpr} (inside : Writable false type) : Writable true (.optional type)

theorem BareAttributes.part {part e : Expr} (bare : BareAttributes e) (within : TypePart part e) :
    BareAttributes part :=
  fun slice elements inside => bare slice elements (inside.trans within)

theorem BareAttributes.argument {slice function : Slice} {argument part : Expr}
    {others : List Expr} {expanded : Bool}
    (bare : BareAttributes (.call slice function (argument :: others) expanded))
    (within : TypePart part argument.unwrap) : BareAttributes part :=
  bare.part (.argument (.of_unwrap within))

theorem Names.of_reference {slice : Slice} {name : String} (names : Names (.reference slice) name) :
    name = slice.string := by
  cases names with
  | word => rfl
  | text same | number same =>
    rw [Expr.value] at same
    · cases same
    all_goals simp

theorem Legacy.writable {direct : Bool} {name : String} {type : TypeExpr}
    (old : Legacy name type) : type.Writable direct := by
  cases old with
  | string => exact .primitive .string
  | list => exact .collection .list (.primitive .string)
  | map => exact .collection .map (.primitive .string)

theorem Spells.writable {lax direct : Bool} {e : Expr} {type : TypeExpr}
    (spells : Spells lax direct e type) (bare : BareAttributes e) : type.Writable direct := by
  refine @Spells.rec lax
    (fun direct e type _ => BareAttributes e → type.Writable direct)
    (fun items types _ => (∀ item ∈ items, BareAttributes item) →
      ∀ type ∈ types, type.Writable false)
    (fun elements listed _ => (∀ element ∈ elements,
        (∃ name : Slice, element.1 = .reference name ∧ BareName name.text) ∧
          BareAttributes element.2) →
      ∀ entry ∈ listed, BareName entry.1.toList ∧ entry.2.Writable true)
    ?primitive ?legacy ?collection ?tuple ?object ?optional ?parens ?nil ?cons ?none ?more _ _ _
    spells bare
  case primitive => exact fun _ _ => .primitive _
  case legacy => exact fun _ old _ => old.writable
  case collection =>
    intro direct slice function argument expanded c element name _ _ ih bare
    exact .collection c (ih (bare.part (.argument .here)))
  case tuple =>
    intro direct slice function inner argument expanded items types name _ list _ ih bare
    refine .tuple (ih fun item member => bare.argument ?_)
    rw [list]
    exact .item member .here
  case object =>
    intro direct slice function inner argument expanded elements listed attributes name _ map _
      distinct order ih bare
    have whole : TypePart (.object inner elements) argument.unwrap := map ▸ .here
    have each := ih fun element member =>
      ⟨bare.argument whole _ _ .here element member,
        (bare.argument whole).part (.element member .here)⟩
    refine .object ((order.map Prod.fst).nodup_iff.mp distinct) ?_ ?_
    · exact fun entry member => (each entry (order.mem_iff.mpr member)).1
    · exact fun entry member => (each entry (order.mem_iff.mpr member)).2
  case optional =>
    intro slice function argument default expanded type name _ _ _ ih bare
    exact .optional (ih (bare.part (.argument .here)))
  case parens =>
    intro direct slice inner type _ ih bare
    exact ih (bare.part (.parens .here))
  case nil | none => simp
  case cons =>
    intro item items type types _ _ first later bare
    refine List.forall_mem_cons.mpr ⟨first (bare item List.mem_cons_self), ?_⟩
    exact later fun other member => bare other (List.mem_cons_of_mem _ member)
  case more =>
    intro key e elements name type listed names _ _ first later bare
    obtain ⟨⟨slice, same, word⟩, inside⟩ := bare (key, e) List.mem_cons_self
    obtain rfl : key = .reference slice := same
    refine List.forall_mem_cons.mpr ⟨⟨?_, first inside⟩, ?_⟩
    · rw [names.of_reference, Slice.string, String.toList_ofList]
      exact word
    · exact later fun other member => bare other (List.mem_cons_of_mem _ member)

/-- What is written for an attribute. -/
def attributeEntry (entry : String × TypeExpr) : List Char :=
  entryText [] (fun entry => entry.2.canonicalText) (fun entry => entry.1.toList) entry

theorem elementTexts_eq (elements : List TypeExpr) :
    TypeExpr.elementTexts elements = listText [] TypeExpr.canonicalText elements := by
  have more (first : TypeExpr) (rest : List TypeExpr) :
      TypeExpr.elementTexts (first :: rest) =
        first.canonicalText ++ moreText [] TypeExpr.canonicalText rest := by
    induction rest generalizing first with
    | nil => simp [TypeExpr.elementTexts, moreText]
    | cons second rest ih =>
      rw [TypeExpr.elementTexts, ih, moreText]
      · rfl
      · simp
  cases elements with
  | nil => rfl
  | cons first rest => rw [more, listText]

theorem attributeTexts_eq (attributes : List (String × TypeExpr)) :
    TypeExpr.attributeTexts attributes = listText [] attributeEntry attributes := by
  have more (first : String × TypeExpr) (rest : List (String × TypeExpr)) :
      TypeExpr.attributeTexts (first :: rest) =
        attributeEntry first ++ moreText [] attributeEntry rest := by
    induction rest generalizing first with
    | nil => simp [TypeExpr.attributeTexts, moreText, attributeEntry, entryText]
    | cons second rest ih =>
      rw [TypeExpr.attributeTexts, ih, moreText]
      · simp [attributeEntry, entryText]
      · simp
  cases attributes with
  | nil => rfl
  | cons first rest => rw [more, listText]

theorem canonicalText_tuple (elements : List TypeExpr) :
    (TypeExpr.tuple elements).canonicalText = "tuple".toList ++
      '(' :: ('[' :: (listText [] TypeExpr.canonicalText elements ++ [']']) ++ [')']) := by
  have opening : "tuple([".toList = "tuple".toList ++ ['(', '['] := by decide +kernel
  unfold TypeExpr.canonicalText
  rw [elementTexts_eq, opening]
  simp only [List.append_assoc, List.cons_append, List.nil_append]

theorem canonicalText_object (attributes : List (String × TypeExpr)) :
    (TypeExpr.object attributes).canonicalText = "object".toList ++
      '(' :: ('{' :: (listText [] attributeEntry attributes ++ ['}']) ++ [')']) := by
  have opening : "object(\x7b".toList = "object".toList ++ ['(', '\x7b'] := by decide +kernel
  unfold TypeExpr.canonicalText
  rw [attributeTexts_eq, opening]
  simp only [List.append_assoc, List.cons_append, List.nil_append]

theorem canonicalText_optional (type : TypeExpr) :
    (TypeExpr.optional type).canonicalText =
      "optional".toList ++ '(' :: (type.canonicalText ++ [')']) := by
  have opening : "optional(".toList = "optional".toList ++ ['('] := by decide +kernel
  conv_lhs => unfold TypeExpr.canonicalText
  rw [opening]
  simp only [List.append_assoc, List.cons_append, List.nil_append]

theorem Primitive.bareName (p : Primitive) : BareName p.name.toList := by
  cases p <;> exact ⟨by decide, by decide, by decide⟩

theorem Collection.bareName (c : Collection) : BareName c.name.toList := by
  cases c <;> exact ⟨by decide, by decide, by decide⟩

theorem bareName_tuple : BareName "tuple".toList := ⟨by decide, by decide, by decide⟩

theorem bareName_object : BareName "object".toList := ⟨by decide, by decide, by decide⟩

theorem bareName_optional : BareName "optional".toList := ⟨by decide, by decide, by decide⟩

theorem string_of_text {slice : Slice} {name : String} (text : slice.text = name.toList) :
    slice.string = name := by
  rw [Slice.string, text, String.ofList_toList]

theorem spellEach_of_forall {types : List TypeExpr} {items : List Expr}
    (all : List.Forall₂ (fun type e => Spells false false e type) types items) :
    SpellEach false items types := by
  induction all with
  | nil => exact .nil
  | cons first _ ih => exact .cons first ih

theorem spellAttributes_of_forall {attributes : List (String × TypeExpr)}
    {elements : List (Expr × Expr)}
    (all : List.Forall₂ (fun entry found =>
      (∃ slice : Slice, slice.text = entry.1.toList ∧ found.1 = .reference slice) ∧
        Spells false true found.2 entry.2) attributes elements) :
    SpellAttributes false elements attributes := by
  induction all with
  | nil => exact .nil
  | @cons entry element _ _ first _ ih =>
    obtain ⟨name, type⟩ := entry
    obtain ⟨key, e⟩ := element
    obtain ⟨⟨slice, text, rfl⟩, spells⟩ := first
    have same : slice.string = name := string_of_text text
    exact .cons (same ▸ .word slice) spells ih

/-- What is written for a type is read as an expression that spells it. -/
theorem writes_canonicalText {direct : Bool} {type : TypeExpr} (writable : type.Writable direct) :
    Writes type.canonicalText (Spells false direct · type) := by
  induction writable with
  | primitive p =>
    refine (Writes.name p.bareName).mono ?_
    rintro e ⟨slice, text, rfl⟩
    exact .primitive (string_of_text text)
  | collection c _ ih =>
    refine (Writes.call c.bareName ih).mono ?_
    rintro e ⟨slice, word, inner, rfl, text, spells⟩
    exact .collection (string_of_text text) (by simp) spells
  | tuple _ ih =>
    rw [canonicalText_tuple]
    refine (Writes.call bareName_tuple (.tuple (by simp) ih)).mono ?_
    rintro e ⟨slice, word, inner, rfl, text, list, items, rfl, all⟩
    exact .tuple (string_of_text text) (by simp) rfl (spellEach_of_forall all)
  | @object _ attributes distinct named _ ih =>
    have keys : ∀ entry ∈ attributes, Writes entry.1.toList _ := fun entry member =>
      Writes.name (named entry member)
    rw [canonicalText_object]
    refine (Writes.call bareName_object (.object (by simp) keys ih)).mono ?_
    rintro e ⟨slice, word, inner, rfl, text, map, elements, rfl, all⟩
    exact .object (string_of_text text) (by simp) rfl (spellAttributes_of_forall all) distinct
      (.refl _)
  | optional _ ih =>
    rw [canonicalText_optional]
    refine (Writes.call bareName_optional ih).mono ?_
    rintro e ⟨slice, word, inner, rfl, text, spells⟩
    exact .optional (string_of_text text) (by simp) (by simp) spells

open Exponent

theorem Exponent.Crosses.call {function argument : List Char} (bare : BareName function)
    (inside : ∀ after, Ends after → Crosses argument after) (after : List Char) :
    Crosses (function ++ '(' :: (argument ++ [')'])) after := by
  refine .append (.word bare.whole ⟨'(', _, rfl, rfl, by decide⟩) (.cons rfl (.append ?_ ?_))
  · exact inside _ ⟨')', after, rfl, by simp⟩
  · exact .single rfl after

theorem canonicalText_crosses {direct : Bool} {type : TypeExpr} (writable : type.Writable direct) :
    ∀ after, Ends after → Crosses type.canonicalText after := by
  induction writable with
  | primitive p => exact fun after ends => .name p.bareName.whole ends
  | collection c _ ih => exact fun after _ => .call c.bareName ih after
  | tuple _ ih =>
    rw [canonicalText_tuple]
    refine fun after _ => .call bareName_tuple (fun after _ => .cons rfl ?_) after
    refine .append ?_ (.single rfl after)
    exact .listText (by simp) ⟨']', after, rfl, by simp⟩ ih
  | object _ named _ ih =>
    rw [canonicalText_object]
    refine fun after _ => .call bareName_object (fun after _ => .braces ?_) after
    refine .listText (by simp) ⟨'}', after, rfl, by simp⟩ fun entry member after ends => ?_
    exact .entryText (by simp) (fun after ends => .name (named entry member).whole ends)
      (ih entry member after ends)
  | optional _ ih =>
    rw [canonicalText_optional]
    exact fun after _ => .call bareName_optional ih after

theorem call_no_null {function argument : List Char} (bare : BareName function)
    (inside : '\x00' ∉ argument) : '\x00' ∉ function ++ '(' :: (argument ++ [')']) := by
  have name := name_no_null bare.whole
  simp [name, inside]

theorem canonicalText_no_null {direct : Bool} {type : TypeExpr} (writable : type.Writable direct) :
    '\x00' ∉ type.canonicalText := by
  induction writable with
  | primitive p => exact name_no_null p.bareName.whole
  | collection c _ ih => exact call_no_null c.bareName ih
  | @tuple _ elements _ ih =>
    have list : '\x00' ∉ listText [] TypeExpr.canonicalText elements := fun inside => by
      rcases mem_listText inside with equal | gap | ⟨element, member, inside⟩
      · exact absurd equal (by decide)
      · cases gap
      · exact ih element member inside
    rw [canonicalText_tuple]
    exact call_no_null bareName_tuple (by simp [list])
  | @object _ attributes _ named _ ih =>
    have list : '\x00' ∉ listText [] attributeEntry attributes := fun inside => by
      rcases mem_listText inside with equal | gap | ⟨entry, member, inside⟩
      · exact absurd equal (by decide)
      · cases gap
      rcases mem_entryText inside with equal | gap | key | inside
      · exact absurd equal (by decide)
      · cases gap
      · exact name_no_null (named entry member).whole key
      · exact ih entry member inside
    rw [canonicalText_object]
    exact call_no_null bareName_object (by simp [list])
  | optional _ ih =>
    rw [canonicalText_optional]
    exact call_no_null bareName_optional ih

end TerraDoc.Hcl
