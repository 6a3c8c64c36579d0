import TerraDoc.Module.Declaration
import TerraDoc.Proofs.DeclarationReading
import TerraDoc.Proofs.ValueExpression

/-!
Every value can be written down as the default of a variable and read back.
-/

namespace TerraDoc.Hcl

theorem declaration_shape (value : Value) :
    value.declaration = declarationText "default" value.source := by
  have lead : "variable \"x\" \x7b\n  default = ".toList = "variable".toList ++ ' ' ::
      (Value.quotedText "x" ++ ' ' :: '{' :: '\n' :: ' ' :: ' ' :: ("default".toList ++
        [' ', '=', ' '])) := by decide +kernel
  have last : "\n\x7d\n".toList = ['\n', '}', '\n'] := rfl
  unfold Value.declaration declarationText attributeText
  rw [lead, last]
  simp only [List.append_assoc, List.cons_append, List.nil_append]

theorem isNull_of_value {e : Expr} {value : Value} (same : e.value = .ok value) :
    e.isNull = false := by
  rw [← Expr.value_unwrap] at same
  unfold Expr.isNull
  split
  · rename_i null
    rw [null, Expr.value] at same
    · cases same
    all_goals simp
  · rfl

theorem declarations_default {e : Expr} {value : Value} (line : Nat)
    (same : e.value = .ok value) :
    Module.declarations [⟨"variable", ["x"], [⟨"default", e⟩], line⟩] =
      .ok ⟨[⟨"x", "", "", value.canonical, true⟩], []⟩ := by
  have found : Module.defaultValue? "x" ⟨"variable", ["x"], [⟨"default", e⟩], line⟩ =
      .ok (some value) := by
    simp [Module.defaultValue?, Block.attribute?, isNull_of_value same, same, Except.map,
      Except.mapError]
  have declared : Module.variableOf ⟨"variable", ["x"], [⟨"default", e⟩], line⟩ =
      .ok ⟨"x", "", "", value.canonical, true⟩ := by
    have named : Module.declaredName ⟨"variable", ["x"], [⟨"default", e⟩], line⟩ = .ok "x" := rfl
    have untyped : Module.declaredType ⟨"variable", ["x"], [⟨"default", e⟩], line⟩ = .ok "" := rfl
    simp only [Module.variableOf, named, untyped, found, bind, Except.bind]
    rfl
  unfold Module.declarations
  rw [if_pos rfl, declared]
  rfl

/-- Every value can be written down and read back: the declaration of a variable with the value
as its default is read, that default has the value, and the variable is declared with it. -/
theorem value_written_and_read (value : Value) (sound : value.Sound) :
    ∃ file e line, parse? value.declaration = some file ∧
      file.blocks = [⟨"variable", ["x"], [⟨"default", e⟩], line⟩] ∧ e.value = .ok value ∧
      Module.declarations file.blocks =
        .ok ⟨[⟨"x", "", "", value.canonical, true⟩], []⟩ := by
  have plain : '\x00' ∉ value.source := fun inside =>
    absurd (printable_source value _ inside) (by decide)
  have named : name? "default".toList = some "default".toList := by decide
  obtain ⟨file, e, line, read, blocks, same⟩ :=
    parse?_declarationText named (expressed sound) plain (Exponent.source_crosses value)
  rw [← declaration_shape] at read
  refine ⟨file, e, line, read, blocks, same, ?_⟩
  rw [blocks]
  exact declarations_default line same

/-- A map of a negative decimal and an empty tuple. -/
theorem value_written_and_read_decimal :
    (Value.map [("$", .num ⟨true, 15, -1, by decide⟩), ("k", .seq [])]).Sound ∧
      ∃ file e line,
        parse? (Value.map [("$", .num ⟨true, 15, -1, by decide⟩), ("k", .seq [])]).declaration =
          some file ∧
        file.blocks = [⟨"variable", ["x"], [⟨"default", e⟩], line⟩] ∧
        e.value = .ok (Value.map [("$", .num ⟨true, 15, -1, by decide⟩), ("k", .seq [])]) := by
  have sound : (Value.map [("$", .num ⟨true, 15, -1, by decide⟩), ("k", .seq [])]).Sound := by
    refine .map _ (List.pairwise_pair.mpr (by decide)) fun entry membership => ?_
    rcases List.mem_cons.mp membership with rfl | membership
    · exact .num _ (by decide +kernel)
    · rw [List.mem_singleton.mp membership]
      exact .seq [] (by simp)
  obtain ⟨file, e, line, read, blocks, same, -⟩ := value_written_and_read _ sound
  exact ⟨sound, file, e, line, read, blocks, same⟩

end TerraDoc.Hcl
