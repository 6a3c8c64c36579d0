import Mathlib.Data.List.Forall2
import TerraDoc.Module.Declaration
import TerraDoc.Proofs.Results

/-!
What a list of blocks declares: one record for each variable and each output, in order, unless a
block offends. The first block that does decides the failure, and in it the label comes before the
type and the type before the default. Nothing else in the blocks matters.
-/

namespace TerraDoc.Module

open Hcl

/-- The first attribute of a name in a block. -/
def FirstOf (block : Block) (name : String) (found : Attribute) : Prop :=
  found.name = name ∧ ∃ before after, block.attributes = before ++ found :: after ∧
    ∀ other ∈ before, other.name ≠ name

/-- A block that has a record. -/
def Declares (block : Block) : Prop :=
  block.kind = "variable" ∨ block.kind = "output"

instance (block : Block) : Decidable (Declares block) :=
  inferInstanceAs (Decidable (_ ∨ _))

/-- The name of a block is its first label, and not empty. -/
def Named (block : Block) (name : String) : Prop :=
  block.labels.head? = some name ∧ name ≠ ""

/-- The type of a block, if one is given, is a type expression. -/
def Typed (block : Block) : Prop :=
  ∀ type, FirstOf block "type" type → ∃ read, type.value.type = .ok read

/-- A default that is given and not null. -/
def HasDefault (block : Block) (default : Attribute) : Prop :=
  FirstOf block "default" default ∧ default.value.isNull = false

/-- A block that can be documented. -/
structure Sound (block : Block) : Prop where
  named : Declares block → ∃ name, Named block name
  typed : block.kind = "variable" → Typed block
  valued : block.kind = "variable" →
    ∀ default, HasDefault block default → ∃ value, default.value.value = .ok value

/-- Why a block cannot be documented: the first of its label, its type and its default that is
wrong. -/
inductive Offends (block : Block) : DeclarationError → Prop where
  | unnamed (declares : Declares block) (nameless : ∀ name, ¬ Named block name) :
      Offends block (.unnamed block.kind block.line)
  | type {name : String} {type : Attribute} {cause : TypeError} (kind : block.kind = "variable")
      (named : Named block name) (first : FirstOf block "type" type)
      (wrong : type.value.type = .error cause) : Offends block (.type cause)
  | default {name : String} {default : Attribute} {cause : LiteralError}
      (kind : block.kind = "variable") (named : Named block name) (typed : Typed block)
      (given : HasDefault block default) (wrong : default.value.value = .error cause) :
      Offends block (.default (.inDefault name cause))

/-- A block describes itself by the literal string of its first description, or not at all. -/
inductive Describes (block : Block) : String → Prop where
  | literal {description : Attribute} {text : String}
      (first : FirstOf block "description" description)
      (literal : description.value.value = .ok (.str text)) : Describes block text
  | nothing (silent : ∀ description, FirstOf block "description" description →
      ∀ text, description.value.value ≠ .ok (.str text)) : Describes block ""

/-- The type that a record shows. -/
inductive ShowsType (block : Block) : String → Prop where
  | given {type : Attribute} {read : TypeExpr} (first : FirstOf block "type" type)
      (right : type.value.type = .ok read) : ShowsType block read.canonical
  | nothing (untyped : ∀ type, ¬ FirstOf block "type" type) : ShowsType block ""

/-- The default that a record shows, and whether there is one. -/
inductive ShowsDefault (block : Block) : Option Value → Prop where
  | given {default : Attribute} {value : Value} (given : HasDefault block default)
      (right : default.value.value = .ok value) : ShowsDefault block (some value)
  | nothing (unset : ∀ default, ¬ HasDefault block default) : ShowsDefault block none

/-- The record of a variable. -/
structure IsVariable (block : Block) (record : Variable) : Prop where
  named : Named block record.name
  described : Describes block record.description
  typed : ShowsType block record.declaredType
  valued : ∃ default, ShowsDefault block default ∧ record.hasDefault = default.isSome ∧
    record.defaultValue = default.elim "" Value.canonical

/-- The record of an output. -/
structure IsOutput (block : Block) (record : Output) : Prop where
  named : Named block record.name
  described : Describes block record.description

variable {block block' : Block} {blocks blocks' : List Block} {name : String}

theorem attribute?_eq_some_iff {found : Attribute} :
    block.attribute? name = some found ↔ FirstOf block name found := by
  rw [Block.attribute?, List.find?_eq_some_iff_append, FirstOf]
  simp only [beq_iff_eq, Bool.not_eq_true', beq_eq_false_iff_ne]

theorem attribute?_eq_none_iff :
    block.attribute? name = none ↔ ∀ found, ¬ FirstOf block name found := by
  simp only [Option.eq_none_iff_forall_ne_some, Ne, attribute?_eq_some_iff]

theorem FirstOf.unique {first second : Attribute} (one : FirstOf block name first)
    (other : FirstOf block name second) : first = second := by
  rw [← attribute?_eq_some_iff] at one other
  exact Option.some.inj (one.symm.trans other)

theorem declaredName_eq_ok_iff : declaredName block = .ok name ↔ Named block name := by
  rw [declaredName, Block.name?, Named]
  cases block.labels.head? with
  | none => simp
  | some label =>
    by_cases empty : label = ""
    · subst empty
      constructor
      · intro same
        cases same
      · intro parts
        exact absurd (Option.some.inj parts.1).symm parts.2
    · have shown : label.isEmpty = false := by simpa using empty
      simp only [shown, Bool.false_eq_true, if_false, Except.ok.injEq, Option.some.injEq]
      exact ⟨fun same => ⟨same, same ▸ empty⟩, fun parts => parts.1⟩

theorem declaredName_eq_error_iff {cause : DeclarationError} :
    declaredName block = .error cause ↔
      (∀ name, ¬ Named block name) ∧ cause = .unnamed block.kind block.line := by
  simp only [← declaredName_eq_ok_iff]
  rw [declaredName]
  split
  · split <;> simp [eq_comm]
  · simp [eq_comm]

theorem describes_description (block : Block) : Describes block (description block) := by
  rw [description]
  split
  · rename_i missing
    exact .nothing fun found first => absurd first (attribute?_eq_none_iff.mp missing found)
  · rename_i found here
    have first := attribute?_eq_some_iff.mp here
    split
    · rename_i text literal
      exact .literal first literal
    · rename_i other
      apply Describes.nothing
      intro another first' text
      rw [← first.unique first']
      exact other text

theorem Describes.eq_description {text : String} (describes : Describes block text) :
    text = description block := by
  rw [description]
  cases describes with
  | literal first literal => simp only [attribute?_eq_some_iff.mpr first, literal]
  | nothing silent =>
    split
    · rfl
    · rename_i found here
      have other := silent found (attribute?_eq_some_iff.mp here)
      split
      · rename_i text literal
        exact absurd literal (other text)
      · rfl

theorem declaredType_eq_ok_iff {text : String} :
    declaredType block = .ok text ↔ ShowsType block text := by
  rw [declaredType]
  constructor
  · intro shown
    split at shown
    · rename_i missing
      cases shown
      exact .nothing (attribute?_eq_none_iff.mp missing)
    · rename_i found here
      obtain ⟨read, same, rfl⟩ := Except.map_eq_ok.mp shown
      exact .given (attribute?_eq_some_iff.mp here) (Except.mapError_eq_ok.mp same)
  · intro shows
    cases shows with
    | given first right =>
      simp only [attribute?_eq_some_iff.mpr first, right, Except.mapError, Except.map]
    | nothing untyped => rw [attribute?_eq_none_iff.mpr untyped]

theorem declaredType_eq_error_iff {cause : DeclarationError} :
    declaredType block = .error cause ↔
      ∃ type fault, FirstOf block "type" type ∧ type.value.type = .error fault ∧
        cause = .type fault := by
  rw [declaredType]
  constructor
  · intro fails
    split at fails
    · cases fails
    · rename_i found here
      obtain ⟨fault, wrong, same⟩ := Except.mapError_eq_error.mp (Except.map_eq_error.mp fails)
      exact ⟨found, fault, attribute?_eq_some_iff.mp here, wrong, same.symm⟩
  · rintro ⟨type, fault, first, wrong, rfl⟩
    simp only [attribute?_eq_some_iff.mpr first, wrong, Except.mapError, Except.map]

theorem defaultValue?_eq_ok_iff {default : Option Value} :
    defaultValue? name block = .ok default ↔ ShowsDefault block default := by
  rw [defaultValue?]
  constructor
  · intro shown
    split at shown
    · rename_i missing
      cases shown
      exact .nothing fun found given => attribute?_eq_none_iff.mp missing found given.1
    · rename_i found here
      have first := attribute?_eq_some_iff.mp here
      split at shown
      · rename_i null
        cases shown
        apply ShowsDefault.nothing
        intro other given
        rw [first.unique given.1, given.2] at null
        cases null
      · rename_i given
        obtain ⟨value, read, rfl⟩ := Except.map_eq_ok.mp shown
        exact .given ⟨first, by simpa using given⟩ (Except.mapError_eq_ok.mp read)
  · intro shows
    cases shows with
    | given given right =>
      simp only [attribute?_eq_some_iff.mpr given.1, given.2, right, Bool.false_eq_true, if_false,
        Except.mapError, Except.map]
    | nothing unset =>
      split
      · rfl
      · rename_i found here
        have null : found.value.isNull = true := by
          rw [← Bool.not_eq_false]
          exact fun given => unset found ⟨attribute?_eq_some_iff.mp here, given⟩
        rw [if_pos null]

theorem defaultValue?_eq_error_iff {cause : DeclarationError} :
    defaultValue? name block = .error cause ↔
      ∃ default fault, HasDefault block default ∧ default.value.value = .error fault ∧
        cause = .default (.inDefault name fault) := by
  rw [defaultValue?]
  constructor
  · intro fails
    split at fails
    · cases fails
    · rename_i found here
      split at fails
      · cases fails
      · rename_i given
        obtain ⟨fault, wrong, same⟩ := Except.mapError_eq_error.mp (Except.map_eq_error.mp fails)
        exact ⟨found, fault, ⟨attribute?_eq_some_iff.mp here, by simpa using given⟩, wrong,
          same.symm⟩
  · rintro ⟨default, fault, given, wrong, rfl⟩
    simp only [attribute?_eq_some_iff.mpr given.1, given.2, wrong, Bool.false_eq_true, if_false,
      Except.mapError, Except.map]

theorem typed_iff : Typed block ↔ ∃ text, declaredType block = .ok text := by
  constructor
  · intro typed
    cases read : declaredType block with
    | ok text => exact ⟨text, rfl⟩
    | error cause =>
      obtain ⟨type, fault, first, wrong, -⟩ := declaredType_eq_error_iff.mp read
      obtain ⟨right, same⟩ := typed type first
      cases wrong.symm.trans same
  · intro read type first
    obtain ⟨text, shown⟩ := read
    cases declaredType_eq_ok_iff.mp shown with
    | given first' right => exact first.unique first' ▸ ⟨_, right⟩
    | nothing untyped => exact absurd first (untyped type)

theorem variableOf_eq_ok_iff {record : Variable} :
    variableOf block = .ok record ↔ IsVariable block record := by
  rw [variableOf, Except.bind_eq_ok]
  constructor
  · intro steps
    obtain ⟨name, named, steps⟩ := steps
    obtain ⟨type, typed, steps⟩ := Except.bind_eq_ok.mp steps
    obtain ⟨default, valued, same⟩ := Except.bind_eq_ok.mp steps
    cases same
    exact ⟨declaredName_eq_ok_iff.mp named, describes_description block,
      declaredType_eq_ok_iff.mp typed, default, defaultValue?_eq_ok_iff.mp valued, rfl, rfl⟩
  · intro record
    obtain ⟨named, described, typed, default, valued, given, shown⟩ := record
    refine ⟨_, declaredName_eq_ok_iff.mpr named, Except.bind_eq_ok.mpr
      ⟨_, declaredType_eq_ok_iff.mpr typed, Except.bind_eq_ok.mpr
        ⟨default, defaultValue?_eq_ok_iff.mpr valued, ?_⟩⟩⟩
    rw [← described.eq_description, ← given, ← shown]
    rfl

theorem outputOf_eq_ok_iff {record : Output} :
    outputOf block = .ok record ↔ IsOutput block record := by
  rw [outputOf, Except.bind_eq_ok]
  constructor
  · intro steps
    obtain ⟨name, named, same⟩ := steps
    cases same
    exact ⟨declaredName_eq_ok_iff.mp named, describes_description block⟩
  · intro record
    refine ⟨_, declaredName_eq_ok_iff.mpr record.named, ?_⟩
    rw [← record.described.eq_description]
    rfl

theorem variableOf_eq_error_iff (kind : block.kind = "variable") {cause : DeclarationError} :
    variableOf block = .error cause ↔ Offends block cause := by
  rw [variableOf, Except.bind_eq_error, declaredName_eq_error_iff]
  constructor
  · intro fails
    rcases fails with ⟨nameless, rfl⟩ | ⟨name, named, fails⟩
    · exact .unnamed (.inl kind) nameless
    have named := declaredName_eq_ok_iff.mp named
    rcases Except.bind_eq_error.mp fails with untyped | ⟨text, typed, fails⟩
    · obtain ⟨type, fault, first, wrong, rfl⟩ := declaredType_eq_error_iff.mp untyped
      exact .type kind named first wrong
    rcases Except.bind_eq_error.mp fails with unvalued | ⟨default, -, none⟩
    · obtain ⟨default, fault, given, wrong, rfl⟩ := defaultValue?_eq_error_iff.mp unvalued
      exact .default kind named (typed_iff.mpr ⟨text, typed⟩) given wrong
    · cases none
  · intro offends
    cases offends with
    | unnamed declares nameless => exact .inl ⟨nameless, rfl⟩
    | type _ named first wrong =>
      refine .inr ⟨_, declaredName_eq_ok_iff.mpr named, Except.bind_eq_error.mpr (.inl ?_)⟩
      exact declaredType_eq_error_iff.mpr ⟨_, _, first, wrong, rfl⟩
    | default _ named typed given wrong =>
      obtain ⟨text, typed⟩ := typed_iff.mp typed
      refine .inr ⟨_, declaredName_eq_ok_iff.mpr named, Except.bind_eq_error.mpr
        (.inr ⟨text, typed, Except.bind_eq_error.mpr (.inl ?_)⟩)⟩
      exact defaultValue?_eq_error_iff.mpr ⟨_, _, given, wrong, rfl⟩

theorem outputOf_eq_error_iff (kind : block.kind = "output") {cause : DeclarationError} :
    outputOf block = .error cause ↔ Offends block cause := by
  have other : block.kind ≠ "variable" := by rw [kind]; decide
  rw [outputOf, Except.bind_eq_error, declaredName_eq_error_iff]
  constructor
  · intro fails
    rcases fails with ⟨nameless, rfl⟩ | ⟨name, -, none⟩
    · exact .unnamed (.inr kind) nameless
    · cases none
  · intro offends
    cases offends with
    | unnamed declares nameless => exact .inl ⟨nameless, rfl⟩
    | type kind | default kind => exact absurd kind other

/-- A block is sound just when nothing is wrong with it. -/
theorem sound_iff : Sound block ↔ ∀ cause, ¬ Offends block cause := by
  constructor
  · intro sound cause offends
    cases offends with
    | unnamed declares nameless =>
      obtain ⟨name, named⟩ := sound.named declares
      exact nameless name named
    | type kind named first wrong =>
      obtain ⟨read, right⟩ := sound.typed kind _ first
      cases wrong.symm.trans right
    | default kind named typed given wrong =>
      obtain ⟨value, right⟩ := sound.valued kind _ given
      cases wrong.symm.trans right
  · intro blameless
    have named (declares : Declares block) : ∃ name, Named block name := by
      by_contra nameless
      exact blameless _ (.unnamed declares (not_exists.mp nameless))
    have typed (kind : block.kind = "variable") : Typed block := by
      obtain ⟨name, named⟩ := named (.inl kind)
      intro type first
      cases read : type.value.type with
      | ok right => exact ⟨right, rfl⟩
      | error fault => exact absurd (.type kind named first read) (blameless _)
    refine ⟨named, typed, fun kind default given => ?_⟩
    obtain ⟨name, named⟩ := named (.inl kind)
    cases read : default.value.value with
    | ok right => exact ⟨right, rfl⟩
    | error fault => exact absurd (.default kind named (typed kind) given read) (blameless _)

/-- The first block fails a list, or it is sound and the others do. -/
theorem declarations_cons_eq_error_iff {cause : DeclarationError} :
    declarations (block :: blocks) = .error cause ↔
      Offends block cause ∨ Sound block ∧ declarations blocks = .error cause := by
  rw [sound_iff, declarations]
  split
  · rename_i kind
    simp only [← variableOf_eq_error_iff kind]
    cases variableOf block with
    | error fault => simp [bind, Except.bind]
    | ok record => cases declarations blocks <;> simp [bind, Except.bind, pure, Except.pure]
  split
  · rename_i kind
    simp only [← outputOf_eq_error_iff kind]
    cases outputOf block with
    | error fault => simp [bind, Except.bind]
    | ok record => cases declarations blocks <;> simp [bind, Except.bind, pure, Except.pure]
  · rename_i noVariable noOutput
    have silent (fault : DeclarationError) : ¬ Offends block fault := by
      intro offends
      cases offends with
      | unnamed declares => exact declares.elim noVariable noOutput
      | type kind | default kind => exact noVariable kind
    simp [silent]

/-- The first block that offends decides how a list of blocks fails. -/
theorem declarations_eq_error_iff {cause : DeclarationError} :
    declarations blocks = .error cause ↔
      ∃ before block after, blocks = before ++ block :: after ∧ (∀ other ∈ before, Sound other) ∧
        Offends block cause := by
  induction blocks with
  | nil => simp [declarations]
  | cons first rest inductionHypothesis =>
    rw [declarations_cons_eq_error_iff, inductionHypothesis]
    constructor
    · intro fails
      rcases fails with offends | ⟨sound, before, block, after, rfl, others, offends⟩
      · exact ⟨[], first, rest, rfl, by simp, offends⟩
      · exact ⟨first :: before, block, after, rfl, List.forall_mem_cons.mpr ⟨sound, others⟩,
          offends⟩
    · intro fails
      obtain ⟨before, block, after, split, others, offends⟩ := fails
      cases before with
      | nil =>
        obtain ⟨rfl, rfl⟩ := List.cons.inj split
        exact .inl offends
      | cons other before =>
        obtain ⟨rfl, rfl⟩ := List.cons.inj split
        obtain ⟨sound, others⟩ := List.forall_mem_cons.mp others
        exact .inr ⟨sound, before, block, after, rfl, others, offends⟩

/-- What is declared are the records of the variables and those of the outputs, in order. -/
theorem declarations_eq_ok_iff {declared : Declarations} :
    declarations blocks = .ok declared ↔
      List.Forall₂ IsVariable (blocks.filter (·.kind = "variable")) declared.inputs ∧
      List.Forall₂ IsOutput (blocks.filter (·.kind = "output")) declared.outputs := by
  obtain ⟨inputs, outputs⟩ := declared
  induction blocks generalizing inputs outputs with
  | nil => simp [declarations, eq_comm]
  | cons block rest inductionHypothesis =>
    rw [declarations]
    split
    · rename_i kind
      have other : block.kind ≠ "output" := by rw [kind]; decide
      rw [List.filter_cons_of_pos (by simpa using kind), List.filter_cons_of_neg (by simpa using other),
        List.forall₂_cons_left_iff, Except.bind_eq_ok]
      constructor
      · intro steps
        obtain ⟨record, here, steps⟩ := steps
        obtain ⟨others, later, same⟩ := Except.bind_eq_ok.mp steps
        cases same
        obtain ⟨found, results⟩ := (inductionHypothesis _ _).mp later
        exact ⟨⟨record, others.inputs, variableOf_eq_ok_iff.mp here, found, rfl⟩, results⟩
      · intro parts
        obtain ⟨⟨record, others, here, found, rfl⟩, results⟩ := parts
        exact ⟨record, variableOf_eq_ok_iff.mpr here, Except.bind_eq_ok.mpr
          ⟨⟨others, outputs⟩, (inductionHypothesis _ _).mpr ⟨found, results⟩, rfl⟩⟩
    rename_i noVariable
    rw [List.filter_cons_of_neg (by simpa using noVariable)]
    split
    · rename_i kind
      rw [List.filter_cons_of_pos (by simpa using kind), List.forall₂_cons_left_iff,
        Except.bind_eq_ok]
      constructor
      · intro steps
        obtain ⟨record, here, steps⟩ := steps
        obtain ⟨others, later, same⟩ := Except.bind_eq_ok.mp steps
        cases same
        obtain ⟨found, results⟩ := (inductionHypothesis _ _).mp later
        exact ⟨found, record, others.outputs, outputOf_eq_ok_iff.mp here, results, rfl⟩
      · intro parts
        obtain ⟨found, record, others, here, results, rfl⟩ := parts
        exact ⟨record, outputOf_eq_ok_iff.mpr here, Except.bind_eq_ok.mpr
          ⟨⟨inputs, others⟩, (inductionHypothesis _ _).mpr ⟨found, results⟩, rfl⟩⟩
    · rename_i noOutput
      rw [List.filter_cons_of_neg (by simpa using noOutput), inductionHypothesis]

theorem declarations_succeed_iff :
    (∃ declared, declarations blocks = .ok declared) ↔ ∀ block ∈ blocks, Sound block := by
  rw [Except.exists_ok_iff]
  induction blocks with
  | nil => simp [declarations]
  | cons first rest inductionHypothesis =>
    rw [List.forall_mem_cons, ← inductionHypothesis]
    simp only [Ne, declarations_cons_eq_error_iff, not_or, not_and, forall_and, ← sound_iff]
    exact and_congr_right fun sound => forall_congr' fun cause => forall_prop_of_true sound

/-- Two blocks agree in what decides a record apart from its description. -/
structure Agree (block block' : Block) : Prop where
  kind : block'.kind = block.kind
  line : block'.line = block.line
  label : block'.labels.head? = block.labels.head?
  attributes : block.kind = "variable" → ∀ name ∈ ["type", "default"], ∀ found,
    FirstOf block' name found ↔ FirstOf block name found

/-- Two blocks describe themselves by the same attribute, if at all. -/
def AgreeInDescription (block block' : Block) : Prop :=
  ∀ found, FirstOf block' "description" found ↔ FirstOf block "description" found

def Variable.describedAs (text : String) (record : Variable) : Variable :=
  { record with description := text }

def Output.describedAs (text : String) (record : Output) : Output :=
  { record with description := text }

def Declarations.undescribed (declared : Declarations) : Declarations :=
  ⟨declared.inputs.map (·.describedAs ""), declared.outputs.map (·.describedAs "")⟩

theorem declarations_filter (blocks : List Block) :
    declarations (blocks.filter Declares) = declarations blocks := by
  induction blocks with
  | nil => rfl
  | cons first rest inductionHypothesis =>
    by_cases declares : Declares first
    · rw [List.filter_cons_of_pos (by simpa using declares), declarations, declarations,
        inductionHypothesis]
    · obtain ⟨noVariable, noOutput⟩ := not_or.mp declares
      rw [List.filter_cons_of_neg (by simpa using declares), inductionHypothesis, declarations,
        if_neg noVariable, if_neg noOutput]

theorem attribute?_congr
    (same : ∀ found, FirstOf block' name found ↔ FirstOf block name found) :
    block'.attribute? name = block.attribute? name := by
  apply Option.ext
  intro found
  rw [attribute?_eq_some_iff, attribute?_eq_some_iff, same]

theorem AgreeInDescription.description_eq (agree : AgreeInDescription block block') :
    description block' = description block := by
  rw [description, description, attribute?_congr agree]

namespace Agree

theorem refl (block : Block) : Agree block block :=
  ⟨rfl, rfl, rfl, fun _ _ _ _ => .rfl⟩

theorem declaredName_eq (agree : Agree block block') :
    declaredName block' = declaredName block := by
  rw [declaredName, declaredName, Block.name?, Block.name?, agree.label, agree.kind, agree.line]

theorem variableOf_eq (agree : Agree block block') (kind : block.kind = "variable") :
    variableOf block' = (variableOf block).map (·.describedAs (description block')) := by
  have type : declaredType block' = declaredType block := by
    rw [declaredType, declaredType,
      attribute?_congr (agree.attributes kind "type" (by simp))]
  have default (name : String) : defaultValue? name block' = defaultValue? name block := by
    rw [defaultValue?, defaultValue?,
      attribute?_congr (agree.attributes kind "default" (by simp))]
  rw [variableOf, variableOf, agree.declaredName_eq, type]
  cases declaredName block with
  | error => rfl
  | ok name =>
    cases declaredType block with
    | error => rfl
    | ok type =>
      change defaultValue? name block' >>= _ = (defaultValue? name block >>= _).map _
      rw [default]
      cases defaultValue? name block <;> rfl

theorem outputOf_eq (agree : Agree block block') :
    outputOf block' = (outputOf block).map (·.describedAs (description block')) := by
  rw [outputOf, outputOf, agree.declaredName_eq]
  cases declaredName block <;> rfl

end Agree

/-- Blocks that agree declare the same, up to the descriptions. -/
theorem declarations_undescribed (agree : List.Forall₂ Agree blocks blocks') :
    (declarations blocks').map Declarations.undescribed =
      (declarations blocks).map Declarations.undescribed := by
  induction agree with
  | nil => rfl
  | cons here _ inductionHypothesis =>
    rw [declarations, declarations, here.kind]
    split
    · rename_i kind
      rw [here.variableOf_eq kind]
      cases variableOf _ with
      | error => rfl
      | ok record =>
        apply Except.map_bind_congr inductionHypothesis
        intro others others' same
        simp_all [Declarations.undescribed, Variable.describedAs]
    split
    · rw [here.outputOf_eq]
      cases outputOf _ with
      | error => rfl
      | ok record =>
        apply Except.map_bind_congr inductionHypothesis
        intro others others' same
        simp_all [Declarations.undescribed, Output.describedAs]
    · exact inductionHypothesis

theorem declarations_congr (agree : List.Forall₂ Agree blocks blocks')
    (described : List.Forall₂ AgreeInDescription blocks blocks') :
    declarations blocks' = declarations blocks := by
  induction agree with
  | nil => rfl
  | @cons block block' _ _ here _ inductionHypothesis =>
    obtain ⟨alike, others⟩ := List.forall₂_cons.mp described
    rw [declarations, declarations, here.kind, inductionHypothesis others]
    have outputs : outputOf block' = outputOf block := by
      rw [here.outputOf_eq, alike.description_eq, ← (Agree.refl block).outputOf_eq]
    rw [outputs]
    split
    · rename_i kind
      rw [here.variableOf_eq kind, alike.description_eq, ← (Agree.refl block).variableOf_eq kind]
    · rfl

/-- Declarations are read block by block. They succeed just when every block is sound, and give one
record for each variable and each output, in order; the first block that offends decides the
failure; and nothing else in the blocks matters: the description of a block changes the description
of its record alone, and what has no part in a record changes nothing. -/
theorem declarations_block_by_block (blocks : List Block) :
    ((∃ declared, declarations blocks = .ok declared) ↔ ∀ block ∈ blocks, Sound block) ∧
    (∀ declared, declarations blocks = .ok declared ↔
      List.Forall₂ IsVariable (blocks.filter (·.kind = "variable")) declared.inputs ∧
      List.Forall₂ IsOutput (blocks.filter (·.kind = "output")) declared.outputs) ∧
    (∀ cause, declarations blocks = .error cause ↔
      ∃ before block after, blocks = before ++ block :: after ∧
        (∀ other ∈ before, Sound other) ∧ Offends block cause) ∧
    ∀ blocks', List.Forall₂ Agree (blocks.filter Declares) (blocks'.filter Declares) →
      (declarations blocks').map Declarations.undescribed =
        (declarations blocks).map Declarations.undescribed ∧
      (List.Forall₂ AgreeInDescription (blocks.filter Declares) (blocks'.filter Declares) →
        declarations blocks' = declarations blocks) := by
  refine ⟨declarations_succeed_iff, fun declared => declarations_eq_ok_iff,
    fun cause => declarations_eq_error_iff, fun blocks' agree => ⟨?_, fun described => ?_⟩⟩
  · rw [← declarations_filter blocks, ← declarations_filter blocks']
    exact declarations_undescribed agree
  · rw [← declarations_filter blocks, ← declarations_filter blocks']
    exact declarations_congr agree described

/-- The block of a variable that is true by default. -/
def flagBlock (more : List Attribute) : Block :=
  ⟨"variable", ["flag"], ⟨"default", .bool ⟨0, "true".toList⟩ true⟩ :: more, 2⟩

/-- A block of locals before a variable, and a second default and a number for a description in it,
change nothing. -/
theorem declarations_block_by_block_repeated :
    List.Forall₂ Agree ([flagBlock []].filter Declares) ([⟨"locals", [], [], 1⟩, flagBlock
        [⟨"default", .reference ⟨0, ['a']⟩⟩, ⟨"description", .number ⟨0, ['1']⟩⟩]].filter Declares) ∧
      declarations [flagBlock []] = .ok ⟨[⟨"flag", "", "", "true", true⟩], []⟩ ∧
      (declarations [⟨"locals", [], [], 1⟩, flagBlock
          [⟨"default", .reference ⟨0, ['a']⟩⟩, ⟨"description", .number ⟨0, ['1']⟩⟩]]).map
        Declarations.undescribed = .ok ⟨[⟨"flag", "", "", "true", true⟩], []⟩ := by
  have agree : Agree (flagBlock []) (flagBlock
      [⟨"default", .reference ⟨0, ['a']⟩⟩, ⟨"description", .number ⟨0, ['1']⟩⟩]) := by
    refine ⟨rfl, rfl, rfl, fun _ name counts found => ?_⟩
    rw [← attribute?_eq_some_iff, ← attribute?_eq_some_iff]
    rcases List.mem_pair.mp counts with rfl | rfl
    · exact Iff.rfl
    · exact Iff.rfl
  have both : List.Forall₂ Agree ([flagBlock []].filter Declares) ([⟨"locals", [], [], 1⟩, flagBlock
      [⟨"default", .reference ⟨0, ['a']⟩⟩, ⟨"description", .number ⟨0, ['1']⟩⟩]].filter Declares) :=
    .cons agree .nil
  have read : declarations [flagBlock []] = .ok ⟨[⟨"flag", "", "", "true", true⟩], []⟩ := rfl
  obtain ⟨-, -, -, frame⟩ := declarations_block_by_block [flagBlock []]
  refine ⟨both, read, ?_⟩
  rw [(frame _ both).1, read]
  rfl

end TerraDoc.Module
