import TerraDoc.Module.Declaration
import TerraDoc.Proofs.DeclarationReading
import TerraDoc.Proofs.TypeReading

/-!
The canonical text of a type can be read back, so it determines the type.
-/

namespace TerraDoc.Hcl

theorem declarations_type {e : Expr} {type : TypeExpr} (line : Nat) (same : e.type = .ok type) :
    Module.declarations [⟨"variable", ["x"], [⟨"type", e⟩], line⟩] =
      .ok ⟨[⟨"x", "", type.canonical, "", false⟩], []⟩ := by
  have typed : Module.declaredType ⟨"variable", ["x"], [⟨"type", e⟩], line⟩ =
      .ok type.canonical := by
    simp [Module.declaredType, Block.attribute?, same, Except.map, Except.mapError]
  have declared : Module.variableOf ⟨"variable", ["x"], [⟨"type", e⟩], line⟩ =
      .ok ⟨"x", "", type.canonical, "", false⟩ := by
    have named : Module.declaredName ⟨"variable", ["x"], [⟨"type", e⟩], line⟩ = .ok "x" := rfl
    have absent : Module.defaultValue? "x" ⟨"variable", ["x"], [⟨"type", e⟩], line⟩ = .ok none := rfl
    simp only [Module.variableOf, named, typed, absent, bind, Except.bind]
    rfl
  unfold Module.declarations
  rw [if_pos rfl, declared]
  rfl

theorem type_written_and_read {e : Expr} {type : TypeExpr} (same : e.type = .ok type)
    (bare : BareAttributes e) :
    ∃ file again line, parse? (declarationText "type" type.canonicalText) = some file ∧
      file.blocks = [⟨"variable", ["x"], [⟨"type", again⟩], line⟩] ∧ again.type = .ok type := by
  have spells : Spells true false e type := spells_of_typeAt e (.inl rfl) same
  have writable := spells.writable bare
  have named : name? "type".toList = some "type".toList := by decide
  obtain ⟨file, again, line, read, blocks, spelled⟩ :=
    parse?_declarationText named (writes_canonicalText writable) (canonicalText_no_null writable)
      (canonicalText_crosses writable)
  refine ⟨file, again, line, read, blocks, ?_⟩
  exact ordered_of_typeAt same ▸ spelled.typeAt

/-- Types of the same canonical text are the same: what is written for them is read as one
expression. -/
theorem type_of_canonical {e₁ e₂ : Expr} {type₁ type₂ : TypeExpr} (first : e₁.type = .ok type₁)
    (second : e₂.type = .ok type₂) (bare₁ : BareAttributes e₁) (bare₂ : BareAttributes e₂)
    (text : type₁.canonical = type₂.canonical) : type₁ = type₂ := by
  have written : type₁.canonicalText = type₂.canonicalText := String.ofList_injective text
  obtain ⟨file, again, line, read, blocks, same⟩ := type_written_and_read first bare₁
  obtain ⟨file', again', line', read', blocks', same'⟩ := type_written_and_read second bare₂
  obtain rfl : file = file' := Option.some.inj (read.symm.trans (written ▸ read'))
  obtain ⟨rfl, -⟩ : again = again' ∧ line = line' := by simpa using blocks.symm.trans blocks'
  exact Except.ok.inj (same.symm.trans same')

/-- The canonical text determines the type: it is accepted as a type expression of the same
canonical text, and two type expressions have the same text exactly when they spell one type, with
the attributes of its objects in some order. -/
theorem canonical_determines_type {e₁ e₂ : Expr} {type₁ type₂ : TypeExpr}
    (first : e₁.type = .ok type₁) (second : e₂.type = .ok type₂)
    (bare₁ : BareAttributes e₁) (bare₂ : BareAttributes e₂) :
    (∃ file again line type, parse? (declarationText "type" type₁.canonical.toList) = some file ∧
      file.blocks = [⟨"variable", ["x"], [⟨"type", again⟩], line⟩] ∧ again.type = .ok type ∧
      type.canonical = type₁.canonical ∧
      Module.declarations file.blocks = .ok ⟨[⟨"x", "", type₁.canonical, "", false⟩], []⟩) ∧
    (type₁.canonical = type₂.canonical ↔
      ∃ type, Spells true false e₁ type ∧ Spells true false e₂ type) := by
  constructor
  · obtain ⟨file, again, line, read, blocks, same⟩ := type_written_and_read first bare₁
    refine ⟨file, again, line, type₁, ?_, blocks, same, rfl, ?_⟩
    · rw [TypeExpr.canonical, String.toList_ofList]
      exact read
    · rw [blocks]
      exact declarations_type line same
  · constructor
    · intro text
      obtain rfl := type_of_canonical first second bare₁ bare₂ text
      exact ⟨type₁, spells_of_typeAt e₁ (.inl rfl) first, spells_of_typeAt e₂ (.inl rfl) second⟩
    · rintro ⟨type, spells₁, spells₂⟩
      have same : type₁ = type₂ := by
        have ordered₁ := first.symm.trans spells₁.typeAt
        have ordered₂ := second.symm.trans spells₂.typeAt
        exact Except.ok.inj (ordered₁.trans ordered₂.symm)
      rw [same]

/-- An object of an optional attribute with a default and of another before it. -/
def listedBackwards : Expr :=
  .call ⟨0, "object(\x7bb=any,a=optional((any),1)\x7d)".toList⟩ ⟨0, "object".toList⟩
    [.object ⟨7, "\x7bb=any,a=optional((any),1)\x7d".toList⟩
      [(.reference ⟨8, ['b']⟩, .reference ⟨10, "any".toList⟩),
        (.reference ⟨14, ['a']⟩,
          .call ⟨16, "optional((any),1)".toList⟩ ⟨16, "optional".toList⟩
            [.parens ⟨25, "(any)".toList⟩ (.reference ⟨26, "any".toList⟩), .number ⟨31, ['1']⟩]
            false)]] false

/-- The same object in the order of the names and without the default. -/
def listedInOrder : Expr :=
  .call ⟨0, "object(\x7ba=optional(any),b=any\x7d)".toList⟩ ⟨0, "object".toList⟩
    [.object ⟨7, "\x7ba=optional(any),b=any\x7d".toList⟩
      [(.reference ⟨8, ['a']⟩,
          .call ⟨10, "optional(any)".toList⟩ ⟨10, "optional".toList⟩
            [.reference ⟨19, "any".toList⟩] false),
        (.reference ⟨24, ['b']⟩, .reference ⟨26, "any".toList⟩)]] false

theorem bareAttributes_listedBackwards : BareAttributes listedBackwards := by
  have a : BareName ['a'] := ⟨by decide, by decide, by decide⟩
  have b : BareName ['b'] := ⟨by decide, by decide, by decide⟩
  rintro slice elements (_ | inside)
  rcases inside with _ | _ | _ | ⟨member, inside⟩
  · simp [a, b]
  · simp only [List.mem_cons, List.not_mem_nil, or_false] at member
    rcases member with rfl | rfl
    · cases inside
    · rcases inside with _ | inside
      rcases inside with _ | _ | _ | _ | inside
      cases inside

theorem bareAttributes_listedInOrder : BareAttributes listedInOrder := by
  have a : BareName ['a'] := ⟨by decide, by decide, by decide⟩
  have b : BareName ['b'] := ⟨by decide, by decide, by decide⟩
  rintro slice elements (_ | inside)
  rcases inside with _ | _ | _ | ⟨member, inside⟩
  · simp [a, b]
  · simp only [List.mem_cons, List.not_mem_nil, or_false] at member
    rcases member with rfl | rfl
    · rcases inside with _ | inside
      cases inside
    · cases inside

/-- Two expressions of one type, which have one canonical text. -/
theorem canonical_determines_type_object :
    ∃ type₁ type₂, listedBackwards.type = .ok type₁ ∧ listedInOrder.type = .ok type₂ ∧
      BareAttributes listedBackwards ∧ BareAttributes listedInOrder ∧
      type₁.canonical = type₂.canonical ∧
      ∃ type, Spells true false listedBackwards type ∧ Spells true false listedInOrder type := by
  refine ⟨.object [("a", .optional (.primitive .any)), ("b", .primitive .any)],
    .object [("a", .optional (.primitive .any)), ("b", .primitive .any)], rfl, rfl,
    bareAttributes_listedBackwards, bareAttributes_listedInOrder, rfl, ?_⟩
  exact (canonical_determines_type rfl rfl bareAttributes_listedBackwards
    bareAttributes_listedInOrder).2.mp rfl

end TerraDoc.Hcl
