import TerraDoc.Proofs.ExpressionScan
import TerraDoc.Proofs.ValueSource

namespace TerraDoc

namespace Hcl.Exponent

namespace Crosses

theorem quotedText (text : String) (after : List Char) :
    Crosses (Value.quotedText text) after := by
  intro s braces code fresh
  have opened : Scans Silent s ['"'] (text.toList.flatMap Value.escaped ++ ['"'] ++ after)
      ⟨.quoted, s.mode :: s.around, .start, '"'⟩ := by
    refine scans_fresh ⟨.quoted, s.mode :: s.around, .start, s.previous⟩ ?_ ?_ (by simp)
    · exact fresh
    · simp [freshStep, code, codeStep, State.enter]
  obtain ⟨previous, inside⟩ : ∃ previous, Scans Silent ⟨.quoted, s.mode :: s.around, .start, '"'⟩
      (text.toList.flatMap Value.escaped) ('"' :: after)
      ⟨.quoted, s.mode :: s.around, .start, previous⟩ :=
    scans_escaped text.toList rfl rfl
  have closed : Scans Silent ⟨.quoted, s.mode :: s.around, .start, previous⟩ ['"'] after
      ⟨s.mode, s.around, .start, '"'⟩ := by
    refine scans_fresh ⟨s.mode, s.around, .start, previous⟩ (fresh_start rfl _) ?_ (by simp)
    simp [freshStep, quotedStep, State.leave]
  have whole := opened.append (inside.append closed)
  exact ⟨_, scans_unmarked whole, code, rfl, fresh_start rfl _⟩

theorem decimal {text whole fraction after : List Char}
    (decimal : Number.Decimal text whole fraction) (ends : Ends after) : Crosses text after := by
  intro s braces code fresh
  obtain ⟨c, rest, rfl, -, digit, mark, -, point⟩ := ends.head
  cases decimal with
  | integer _ shape nonempty _ =>
    obtain ⟨previous, digits⟩ := scans_whole code fresh shape nonempty
    refine ⟨_, scans_unmarked digits, code, rfl, ?_⟩
    exact fresh_digits rfl digit (by simp [mark]) fun pair => point pair.1
  | pointed whole fraction shape nonempty _ places more =>
    rw [List.append_assoc] at fresh
    obtain ⟨middle, digits⟩ := scans_whole code fresh shape nonempty
    obtain ⟨previous, later⟩ : ∃ previous, Scans Unmarked
        { s with phase := .digits (s.previous == '.'), previous := middle } ('.' :: fraction)
        (c :: rest) { s with phase := .fraction, previous } := scans_fraction rfl places more
    refine ⟨_, (scans_unmarked digits).append later, code, rfl, ?_⟩
    exact fresh_fraction rfl digit mark

theorem number (n : Number) {after : List Char} (ends : Ends after) : Crosses n.text after := by
  obtain ⟨whole, fraction, decimal, -⟩ := n.magnitudeText_decimal
  unfold Number.text
  split
  · exact cons rfl (Crosses.decimal decimal ends)
  · exact Crosses.decimal decimal ends

end Crosses

theorem source_crosses (value : Value) :
    ∀ after, Ends after → Crosses value.source after := by
  induction value using Value.induction with
  | str text => exact fun after _ => .quotedText text after
  | num n => exact fun after ends => .number n ends
  | bool b =>
    have word : name? (Value.bool b).source = some (Value.bool b).source := by cases b <;> decide
    exact fun after ends => .name word ends
  | seq items each =>
    intro after _
    rw [source_seq]
    refine .cons rfl (.append (.listText (by simp) ?_ each) (.single rfl after))
    exact ⟨']', after, rfl, by simp⟩
  | map entries each =>
    intro after _
    rw [source_map]
    refine .braces (.listText (by simp) ⟨'}', after, rfl, by simp⟩ fun entry member after ends => ?_)
    exact .entryText (by simp) (fun after _ => .quotedText entry.1 after) (each entry member _ ends)

end Hcl.Exponent

end TerraDoc
