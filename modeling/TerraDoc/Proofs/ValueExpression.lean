import TerraDoc.Proofs.CollectedEntries
import TerraDoc.Proofs.ExpressionReading
import TerraDoc.Proofs.ValueReading

namespace TerraDoc

/-- A value whose numbers are within range and whose maps are dictionaries. -/
inductive Value.Sound : Value → Prop where
  | str (text : String) : Sound (.str text)
  | num (n : Number) (within : n.inRange = true) : Sound (.num n)
  | bool (b : Bool) : Sound (.bool b)
  | seq (items : List Value) (each : ∀ item ∈ items, Sound item) : Sound (.seq items)
  | map (entries : List (String × Value)) (ordered : Dictionary.Ordered entries)
      (each : ∀ entry ∈ entries, Sound entry.2) : Sound (.map entries)

namespace Hcl

open Reader Exponent

/-- What is written for a value is read as an expression that has it. -/
def Expressed (value : Value) : Prop :=
  Writes value.source (·.value = .ok value)

variable {total : Nat}

theorem starts_decimal {text whole fraction : List Char}
    (decimal : Number.Decimal text whole fraction) : Starts text := by
  obtain ⟨c, rest, rfl, digit⟩ := decimal.cons
  refine .of_head rest ?_ (digit_not_startsWord digit)
  exact digit_cases (fun c => startsExpression c = true) (by decide) digit

/-- A decimal is read as a number. -/
theorem operand_decimal {bound : Nat} {text whole fraction after : List Char}
    {inner : Reader Expr} (decimal : Number.Decimal text whole fraction) (ends : Ends after) :
    Reads total (operand inner (bound + 1)) (text ++ after) after
      fun e => ∃ slice : Slice, slice.text = text ∧ e = .number slice := by
  have literal := number?_decimal decimal ends
  have before := (starts_decimal decimal).before after
  obtain ⟨c, rest, rfl, digit⟩ := decimal.cons
  have signs : c ≠ '-' ∧ c ≠ '!' := digit_cases (fun c => c ≠ '-' ∧ c ≠ '!') (by decide) digit
  rw [List.cons_append] at before
  refine operand_of_primary before.solid signs.1 signs.2 ?_
  refine .bind (.mark before) fun start ⟨same, _⟩ => ?_
  rw [same]
  split
  case h_6 =>
    rw [← List.cons_append, literal]
    exact .bind (.token .number (c :: rest) after) fun slice read => .pure ⟨slice, read, rfl⟩
  all_goals
    rename_i equal
    rw [(List.cons.inj equal).1] at digit
    exact absurd digit (by decide)

/-- A number is read as a literal, with a sign before it if it is negative. -/
theorem expressed_number (n : Number) (within : n.inRange = true) : Expressed (.num n) := by
  obtain ⟨whole, fraction, decimal, -⟩ := n.magnitudeText_decimal
  have begins := starts_decimal decimal
  by_cases negative : n.negative = true
  · have shape : (Value.num n).source = '-' :: n.magnitudeText := by
      simp [Value.source, Number.text, negative]
    rw [Expressed, shape]
    refine .of_operand (.of_head _ rfl rfl) fun total bound after enough closes => ?_
    obtain ⟨inner, rfl⟩ : ∃ inner, bound = inner + 1 := by
      obtain ⟨c, rest, digits, -⟩ := decimal.cons
      rw [digits, List.length_cons, List.length_cons] at enough
      exact ⟨bound - 1, by omega⟩
    have before : Gap.Before ('-' :: n.magnitudeText ++ after) ('-' :: n.magnitudeText ++ after) :=
      .here rfl
    refine .bind (.mark before) fun start found => ?_
    obtain ⟨same, place⟩ := found
    rw [same]
    refine .bind (.take_one '-' _) fun _ _ => .bind (operand_decimal decimal closes.ends) ?_
    rintro e ⟨slice, read, rfl⟩
    refine .bind (.sliceFrom same place) fun whole _ => .pure ?_
    have positive : n.negate.negative = false := by simp [Number.negate, negative]
    have magnitude : Number.parse n.magnitudeText = .ok n.negate :=
      Number.parse_magnitudeText (n := n.negate) within positive
    have operand : (Expr.number slice).value = .ok (.num n.negate) := by
      rw [Expr.value, read, magnitude]
      rfl
    rw [Expr.value, operand]
    show Except.ok (Value.num n.negate.negate) = _
    rw [Number.negate_negate]
  · have shape : (Value.num n).source = n.magnitudeText := by
      simp [Value.source, Number.text, negative]
    rw [Expressed, shape]
    refine .of_operand begins fun total bound after enough closes => ?_
    refine (operand_decimal decimal closes.ends).mono ?_
    rintro e ⟨slice, read, rfl⟩
    rw [Expr.value, read, Number.parse_magnitudeText within (by simpa using negative)]
    rfl

theorem writes_quotedText (key : String) : Writes (Value.quotedText key)
    fun e => ∃ slice : Slice, slice.text = Value.quotedText key ∧ e = .quoted slice := by
  refine .of_operand (.of_head _ rfl rfl) fun total bound after enough closes => ?_
  have before : Gap.Before (Value.quotedText key ++ after) (Value.quotedText key ++ after) :=
    .here (c := '"') rfl
  refine operand_of_primary (c := '"') before.solid (by decide) (by decide) ?_
  refine .bind (.mark before) fun start ⟨same, _⟩ => ?_
  rw [same]
  exact quoted_quotedText _ key after enough

theorem value_of_quotedText {slice : Slice} {text : String}
    (read : slice.text = Value.quotedText text) : (Expr.quoted slice).value = .ok (.str text) := by
  rw [Expr.value, read, decode_quotedText]
  simp [Except.map]

theorem expressed_string (text : String) : Expressed (.str text) := by
  refine (writes_quotedText text).mono ?_
  rintro e ⟨slice, read, rfl⟩
  exact value_of_quotedText read

theorem expressed_bool (b : Bool) : Expressed (.bool b) := by
  have word : name? (Value.bool b).source = some (Value.bool b).source := by cases b <;> decide
  have starts : Starts (Value.bool b).source := by
    obtain ⟨c, tail, none, split, shape, first, -⟩ := name?_shape word
    refine ⟨⟨c, tail, shape, startsExpression_of_startsWord first⟩, fun after ends => ?_⟩
    rw [name?_append word ends.name]
    cases b <;> decide
  refine .of_operand starts fun total bound after enough closes => operand_named word ?_
  refine .bind (.mark (starts.before after)) fun _ _ => ?_
  refine .bind (.name (starts.before after) (name?_append word closes.ends.name)) ?_
  intro slice read
  have string : slice.string = if b then "true" else "false" := by
    rw [Slice.string, read]
    cases b <;> rfl
  rw [string]
  cases b <;> exact .pure rfl

theorem expressed_sequence {items : List Value} (each : ∀ item ∈ items, Expressed item) :
    Expressed (.seq items) := by
  rw [Expressed, source_seq]
  refine (Writes.tuple (by simp) each).mono ?_
  rintro e ⟨slice, inside, rfl, all⟩
  rw [Expr.value, Expr.valueOfItems_eq_mapM, Except.mapM_eq_ok_iff.mpr all.flip]
  rfl

theorem key_of_quotedText {slice : Slice} {text : String}
    (read : slice.text = Value.quotedText text) : (Expr.quoted slice).key = .ok text := by
  simp only [Expr.key, Expr.unwrap, value_of_quotedText read]
  rfl

theorem expressed_map {entries : List (String × Value)} (ordered : Dictionary.Ordered entries)
    (each : ∀ entry ∈ entries, Expressed entry.2) : Expressed (.map entries) := by
  rw [Expressed, source_map]
  refine (Writes.object (by simp) (fun entry _ => writes_quotedText entry.1) each).mono ?_
  rintro e ⟨slice, elements, rfl, all⟩
  refine Expr.value_object_iff.mpr ⟨entries, ⟨entries, all.flip.imp ?_, ordered.nodup,
    (Dictionary.ofList_of_ordered ordered).symm⟩, rfl⟩
  rintro ⟨_, e⟩ entry ⟨⟨slice, text, rfl⟩, same⟩
  exact ⟨key_of_quotedText text, same⟩

theorem expressed {value : Value} (sound : value.Sound) : Expressed value := by
  induction sound with
  | str text => exact expressed_string text
  | num n within => exact expressed_number n within
  | bool b => exact expressed_bool b
  | seq items _ each => exact expressed_sequence each
  | map entries ordered _ each => exact expressed_map ordered each

end Hcl

end TerraDoc
