import Mathlib.Data.Bool.AllAny
import Mathlib.Tactic.IntervalCases
import TerraDoc.Hcl.Exponent
import TerraDoc.Hcl.Token

namespace TerraDoc

theorem digit_range {c : Char} (digit : c.isDigit = true) : 48 ≤ c.toNat ∧ c.toNat ≤ 57 := by
  simpa [Char.isDigit, UInt32.le_iff_toNat_le] using digit

theorem digit_cases (property : Char → Prop) (all : ∀ n < 10, property (Char.ofNat (48 + n)))
    {c : Char} (digit : c.isDigit = true) : property c := by
  obtain ⟨lower, upper⟩ := digit_range digit
  have here := all (c.toNat - 48) (by omega)
  rwa [show 48 + (c.toNat - 48) = c.toNat by omega, Char.ofNat_toNat] at here

theorem ascii_cases (property : Char → Prop) (all : ∀ n < 128, property (Char.ofNat n))
    {c : Char} (ascii : c.toNat < 128) : property c := by
  have here := all c.toNat ascii
  rwa [Char.ofNat_toNat] at here

def blankCodes : List Nat :=
  List.range' 9 5 ++ List.range' 8192 11 ++
    [32, 133, 160, 5760, 8232, 8233, 8239, 8287, 12288]

theorem blank_cases (property : Char → Prop) (all : ∀ n ∈ blankCodes, property (Char.ofNat n))
    {c : Char} (blank : Text.isBlank c = true) : property c := by
  have kinds : ('\t' ≤ c ∧ c ≤ '\r') ∨ ('\u2000' ≤ c ∧ c ≤ '\u200a') ∨
      c ∈ [' ', '\x85', '\xa0', '\u1680', '\u2028', '\u2029', '\u202f', '\u205f', '\u3000'] := by
    simp only [Text.isBlank, Bool.or_eq_true, Bool.and_eq_true, beq_iff_eq,
      decide_eq_true_eq] at blank
    simp only [List.mem_cons, List.not_mem_nil, or_false]
    tauto
  have code : c.toNat ∈ blankCodes := by
    simp only [blankCodes, List.mem_append, List.mem_range'_1]
    rcases kinds with control | space | other
    · obtain ⟨lower, upper⟩ : 9 ≤ c.toNat ∧ c.toNat ≤ 13 := control
      exact .inl (.inl (by omega))
    · obtain ⟨lower, upper⟩ : 8192 ≤ c.toNat ∧ c.toNat ≤ 8202 := space
      exact .inl (.inr (by omega))
    · exact .inr (List.mem_map_of_mem (f := Char.toNat) other)
  have holds := all c.toNat code
  rwa [Char.ofNat_toNat] at holds

theorem digit_not_blank {c : Char} (digit : c.isDigit = true) : Text.isBlank c = false :=
  digit_cases (fun c => Text.isBlank c = false) (by decide) digit

namespace Hcl

open Exponent

theorem digit_not_startsWord {c : Char} (digit : c.isDigit = true) : startsWord c = false :=
  digit_cases (fun c => startsWord c = false) (by decide) digit

theorem digit_not_mark {c : Char} (digit : c.isDigit = true) : isMark c = false :=
  digit_cases (fun c => isMark c = false) (by decide) digit

theorem startsWord_of_startsIdentifier {c : Char} (starts : Text.startsIdentifier c = true) :
    startsWord c = true := by
  by_cases ascii : c.toNat < 128
  · simp only [Text.startsIdentifier, if_pos ascii] at starts
    simp [startsWord, starts]
  · simp [startsWord]
    omega

theorem isWord_of_continuesIdentifier {c : Char} (continues : Text.continuesIdentifier c = true) :
    isWord c = true := by
  by_cases ascii : c.toNat < 128
  · simp only [Text.continuesIdentifier, if_pos ascii] at continues
    simp only [Bool.or_eq_true] at continues
    simp only [isWord, Bool.or_eq_true]
    exact .inl (.inl continues)
  · simp [isWord]
    omega

end Hcl

end TerraDoc
