import TerraDoc.Hcl.Block
import TerraDoc.Proofs.CollectedEntries

/-!
What stands in an expression that has a literal value. A value is made of the values of all parts,
so one part that is no literal, at any depth, leaves the whole without a value. The keys of objects
are the exception: a name is a key without being evaluated, also in parentheses.
-/

namespace TerraDoc.Hcl.Expr

/-- The forms that are no literals, whatever is inside them: null, templates, names, calls,
operators between operands, indices, attribute accesses, splats, conditionals and repetitions. -/
def isForeign : Expr → Bool
  | null _ | quotedTemplate _ _ | heredocTemplate _ _ | reference _ | call _ _ _ _
  | compound _ _ _ => true
  | _ => false

/-- The direct parts of an expression. A key that is a bare name names an element and is no part. -/
inductive Part : Expr → Expr → Prop where
  | quotedTemplate {slice : Slice} {inside : List Expr} {part : Expr} (member : part ∈ inside) :
      Part part (.quotedTemplate slice inside)
  | heredocTemplate {slice : Slice} {inside : List Expr} {part : Expr} (member : part ∈ inside) :
      Part part (.heredocTemplate slice inside)
  | item {slice : Slice} {items : List Expr} {part : Expr} (member : part ∈ items) :
      Part part (.tuple slice items)
  | key {slice : Slice} {elements : List (Expr × Expr)} {element : Expr × Expr}
      (member : element ∈ elements) (other : ∀ name, element.1 ≠ .reference name) :
      Part element.1 (.object slice elements)
  | element {slice : Slice} {elements : List (Expr × Expr)} {element : Expr × Expr}
      (member : element ∈ elements) : Part element.2 (.object slice elements)
  | argument {slice function : Slice} {arguments : List Expr} {expanded : Bool} {part : Expr}
      (member : part ∈ arguments) : Part part (.call slice function arguments expanded)
  | operand {slice : Slice} {op : UnaryOp} {operand : Expr} :
      Part operand (.unary slice op operand)
  | inside {slice : Slice} {form : Form} {inside : List Expr} {part : Expr}
      (member : part ∈ inside) : Part part (.compound slice form inside)
  | inner {slice : Slice} {inner : Expr} : Part inner (.parens slice inner)

/-- An expression stands in another at some depth. -/
inductive Within (part : Expr) : Expr → Prop where
  | self : Within part part
  | step {next e : Expr} (direct : Part next e) (deeper : Within part next) : Within part e

/-- The keys of an object that are names are written without parentheses. -/
def KeysBare (elements : List (Expr × Expr)) : Prop :=
  ∀ element ∈ elements, ∀ name, element.1.unwrap = .reference name → element.1 = .reference name

/-- No object in an expression has a name in parentheses as a key. -/
def BareKeys (e : Expr) : Prop :=
  ∀ slice elements, Within (.object slice elements) e → KeysBare elements

theorem BareKeys.part {part e : Expr} (bare : e.BareKeys) (direct : Part part e) :
    part.BareKeys :=
  fun slice elements within => bare slice elements (.step direct within)

theorem value_of_key {key : Expr} {name : String} (named : key.key = .ok name)
    (other : ∀ slice, key.unwrap ≠ .reference slice) : ∃ v, key.value = .ok v := by
  unfold Expr.key at named
  split at named
  · rename_i slice same
    exact absurd same (other slice)
  · obtain ⟨v, same, -⟩ := Except.bind_eq_ok.mp named
    exact ⟨v, same⟩

theorem not_foreign_of_value {e : Expr} {v : Value} (same : e.value = .ok v) :
    e.isForeign = false := by
  cases e with
  | null | quotedTemplate | heredocTemplate | reference | call | compound =>
    rw [Expr.value] at same
    · cases same
    all_goals simp
  | _ => rfl

/-- The parts of what has a value have values too, except for names in parentheses that are keys. -/
theorem value_or_key_of_part {part e : Expr} (direct : Part part e) {v : Value}
    (same : e.value = .ok v) :
    (∃ w, part.value = .ok w) ∨ ∃ slice elements, e = .object slice elements ∧
      ∃ element ∈ elements, element.1 = part ∧
        ∃ name, part.unwrap = .reference name ∧ part ≠ .reference name := by
  have plain := not_foreign_of_value same
  cases direct with
  | quotedTemplate | heredocTemplate | argument | inside => cases plain
  | item member =>
    rw [Expr.value, Except.map_eq_ok] at same
    obtain ⟨values, each, -⟩ := same
    rw [valueOfItems_eq_mapM, Except.mapM_eq_ok_iff] at each
    obtain ⟨w, -, inner⟩ := exists_of_mem_left each member
    exact .inl ⟨w, inner⟩
  | @key slice elements element member other =>
    obtain ⟨entries, collected, -⟩ := value_object_iff.mp same
    obtain ⟨entry, -, named, -⟩ := collected.gives_mem member
    by_cases word : ∃ name, element.1.unwrap = .reference name
    · obtain ⟨name, word⟩ := word
      exact .inr ⟨slice, elements, rfl, element, member, rfl, name, word, other name⟩
    · exact .inl (value_of_key named (not_exists.mp word))
  | @element slice elements element member =>
    obtain ⟨entries, collected, -⟩ := value_object_iff.mp same
    obtain ⟨entry, -, -, inner⟩ := collected.gives_mem member
    exact .inl ⟨entry.2, inner⟩
  | operand =>
    rw [Expr.value] at same
    obtain ⟨w, operand, -⟩ := Except.bind_eq_ok.mp same
    exact .inl ⟨w, operand⟩
  | inner =>
    rw [Expr.value] at same
    exact .inl ⟨v, same⟩

theorem value_of_part {part e : Expr} (direct : Part part e) (bare : e.BareKeys) {v : Value}
    (same : e.value = .ok v) : ∃ w, part.value = .ok w := by
  obtain inner | ⟨slice, elements, rfl, element, member, rfl, name, word, other⟩ :=
    value_or_key_of_part direct same
  · exact inner
  · exact absurd (bare slice elements .self element member name word) other

theorem value_of_within {part e : Expr} (within : Within part e) (bare : e.BareKeys) {v : Value}
    (same : e.value = .ok v) : ∃ w, part.value = .ok w := by
  induction within generalizing v with
  | self => exact ⟨v, same⟩
  | step direct _ ih =>
    obtain ⟨w, inner⟩ := value_of_part direct bare same
    exact ih (bare.part direct) inner

/-- Nothing but literals is taken for a value: an expression that has a value holds no foreign form
at any depth, and one that holds a foreign form is an error. -/
theorem literal_throughout (e : Expr) (bare : e.BareKeys) :
    (∀ v, e.value = .ok v → ∀ part, Within part e → part.isForeign = false) ∧
      ((∃ part, Within part e ∧ part.isForeign = true) → ∃ cause, e.value = .error cause) := by
  have literal (v : Value) (same : e.value = .ok v) (part : Expr) (within : Within part e) :
      part.isForeign = false := by
    obtain ⟨w, inner⟩ := value_of_within within bare same
    exact not_foreign_of_value inner
  refine ⟨literal, fun ⟨part, within, isForeign⟩ => Except.error_of_not_ok fun v same => ?_⟩
  rw [literal v same part within] at isForeign
  cases isForeign

/-- An element whose value is a name. -/
def namedElement : Expr :=
  .object ⟨0, "\x7b a = b \x7d".toList⟩ [(.reference ⟨2, ['a']⟩, .reference ⟨6, ['b']⟩)]

theorem not_within_reference {part : Expr} {slice : Slice}
    (within : Within part (.reference slice)) : part = .reference slice := by
  cases within with
  | self => rfl
  | step direct => cases direct

theorem namedElement_bareKeys : namedElement.BareKeys := by
  intro slice elements within
  cases within with
  | self =>
    rintro element member name same
    rw [List.mem_singleton.mp member] at same ⊢
    exact same
  | step direct deeper =>
    cases direct with
    | key member other =>
      rw [List.mem_singleton.mp member] at other
      exact absurd rfl (other _)
    | element member =>
      rw [List.mem_singleton.mp member] at deeper
      cases not_within_reference deeper

/-- A name as a key is taken, and as a value it is an error. -/
theorem literal_throughout_namedElement :
    namedElement.BareKeys ∧ Within (.reference ⟨6, ['b']⟩) namedElement ∧
      ∃ cause, namedElement.value = .error cause := by
  have within : Within (.reference ⟨6, ['b']⟩) namedElement :=
    .step (.element List.mem_cons_self) .self
  exact ⟨namedElement_bareKeys, within,
    (literal_throughout namedElement namedElement_bareKeys).2 ⟨_, within, rfl⟩⟩

/-- A default with a name in parentheses as a key. -/
def parenthesizedKey : List Char :=
  "variable \"x\" \x7b\n  default = \x7b (a) = 1 \x7d\n\x7d\n".toList

/-- Whether an expression is an object with a name in parentheses as its only key. -/
def hasParenthesizedKey : Expr → Bool
  | .object _ [(.parens _ (.reference _), _)] => true
  | _ => false

theorem foreign_of_hasParenthesizedKey {e : Expr} (found : e.hasParenthesizedKey = true) :
    ∃ part, Within part e ∧ part.isForeign = true := by
  unfold hasParenthesizedKey at found
  split at found
  · rename_i name _
    refine ⟨.reference name, .step (.key List.mem_cons_self ?_) (.step .inner .self), rfl⟩
    simp
  · cases found

/-- A name in parentheses is an expression, not a bare key, and yet it is taken for one. -/
theorem parenthesized_name_taken :
    ∃ file default, parse? parenthesizedKey = some file ∧
      file.blocks.head?.bind (Block.attribute? "default") = some default ∧
      (∃ part, Within part default.value ∧ part.isForeign = true) ∧
      ∃ v, default.value.value = .ok v ∧ v.canonical = "\x7ba=1\x7d" := by
  have checked : ((parse? parenthesizedKey).any fun file =>
      (file.blocks.head?.bind (Block.attribute? "default")).any fun default =>
        default.value.hasParenthesizedKey &&
          default.value.value.toOption.any (·.canonical == "\x7ba=1\x7d")) = true := by
    decide +kernel
  obtain ⟨file, default, read, same, good⟩ := Option.exists_of_any_any checked
  rw [Bool.and_eq_true] at good
  obtain ⟨v, value, text⟩ := (Option.any_eq_true _ _).mp good.2
  exact ⟨file, default, read, same, foreign_of_hasParenthesizedKey good.1, v,
    Except.toOption_eq_some.mp value, by simpa using text⟩

end TerraDoc.Hcl.Expr
