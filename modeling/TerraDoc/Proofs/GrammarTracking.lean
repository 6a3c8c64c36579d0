import TerraDoc.Proofs.HeredocTracking

namespace TerraDoc.Hcl

open Exponent

variable {source : List Char} {braces : Nat} {around : List Mode} {c : Cursor}

namespace Keeps

theorem openBrace : Keeps source (Reader.symbol ['{']) (Ready source braces around)
    fun _ => Clear source (braces + 1) around :=
  symbol fun _ _ met split => met.open split

theorem closeBrace : Keeps source (Reader.symbol ['}']) (Ready source (braces + 1) around)
    fun _ => Clear source braces around :=
  symbol fun _ _ met split => met.close split

theorem takeSign {d : Char} (plain : isPlainSign [d] = true) :
    Keeps source (Reader.take 1)
      (fun c => Met source braces around c ∧ ∃ rest, c.rest = d :: rest)
      fun _ => Clear source braces around := by
  refine take fun c ⟨met, rest, split⟩ => ?_
  have ready : Ready source braces around ⟨c.position + 1, rest, c.tokens⟩ :=
    met.sign split plain
  rw [split]
  refine ready.clear [d] met.tracks split (by simp) ?_
  rintro ⟨⟩
  cases plain

theorem takeBrace :
    Keeps source (Reader.take 1)
      (fun c => Met source braces around c ∧ ∃ rest, c.rest = '{' :: rest)
      fun _ => Clear source (braces + 1) around := by
  refine take fun c ⟨met, rest, split⟩ => ?_
  have clear := met.open split
  rw [split]
  exact clear

theorem ellipsis : Keeps source (Reader.optional? ['.', '.', '.']) (Clear source braces around)
    fun _ => Ready source braces around := by
  have dots : Keeps source (Reader.symbol ['.', '.', '.']) (Clear source braces around)
      fun _ => Ready source braces around := (sign rfl).pre fun _ clear => clear.1
  refine (optional dots).post fun found c holds => ?_
  cases found with
  | true => exact holds
  | false => exact holds.1

section Inside

variable {expression : Reader Expr}
  (inner : ∀ braces around, Keeps source expression (Clear source braces around)
    fun _ => Clear source braces around)

include inner

theorem listRest (bound : Nat) (close : Char) :
    Keeps source (Reader.listRest bound expression close) (Clear source braces around)
      fun _ => Clear source braces around := by
  refine loop (bind (optional_clear rfl (by simp)) fun more => ite (fun _ => ?_) fun _ => ?_) bound
  · refine bind ahead fun text => ?_
    split
    · refine ite (fun _ => pure fun _ there => there.1) fun _ => ?_
      exact bind ((inner _ _).pre fun _ there => there.1) fun _ => pure fun _ clear => clear
    · exact failure
  · exact pure fun _ clear => clear

theorem forIntro :
    Keeps source (Reader.forIntro expression) (Ready source braces around)
      fun _ => Clear source braces around := by
  refine bind (word _) fun _ => bind (names.pre fun _ clear => clear.1) fun _ => ?_
  refine bind (inner _ _) fun _ => ?_
  refine bind ((sign_clear rfl (by simp)).pre fun _ clear => clear.1) fun _ => ?_
  exact pure fun _ clear => clear

theorem forCondition :
    Keeps source (Reader.forCondition expression) (Ready source braces around)
      fun _ => Ready source braces around := by
  refine bind (wordAhead _) fun found => ite (fun _ => ?_) fun _ => pure fun _ ready => ready
  exact bind (word _) fun _ => bind (inner _ _) fun _ => pure fun _ clear => clear.1

theorem tuple (bound : Nat) :
    Keeps source (Reader.tuple bound expression)
      (fun c => Met source braces around c ∧ ∃ rest, c.rest = '[' :: rest)
      fun _ => Clear source braces around := by
  have close : Keeps source (Reader.symbol [']']) (Ready source braces around)
      fun _ => Clear source braces around := sign_clear rfl (by simp)
  refine bind get fun start => bind ((takeSign rfl).pre fun _ there => there.2) fun _ => ?_
  refine bind (wordAhead _) fun found => ite (fun _ => ?_) fun _ => ?_
  · refine bind ((forIntro inner).pre fun _ clear => clear.1) fun _ => bind (inner _ _) fun _ => ?_
    refine bind ((forCondition inner).pre fun _ clear => clear.1) fun _ => bind close fun _ => ?_
    exact bind sliceFrom fun _ => pure fun _ there => there.2
  · refine bind (optional_clear rfl (by simp)) fun empty => ite (fun _ => ?_) fun _ => ?_
    · exact bind sliceFrom fun _ => pure fun _ there => there.2
    · refine bind (inner _ _) fun _ => bind (listRest inner bound ']') fun _ => ?_
      refine bind (close.pre fun _ clear => clear.1) fun _ => ?_
      exact bind sliceFrom fun _ => pure fun _ there => there.2

theorem element :
    Keeps source (Reader.element expression) (Clear source braces around)
      fun _ => Clear source braces around := by
  refine bind (inner _ _) fun _ => bind (optional_clear rfl (by simp)) fun colon => ?_
  have value (key : Expr) : Keeps source (do return (key, ← expression)) (Clear source braces around)
      fun _ => Clear source braces around :=
    bind (inner _ _) fun _ => pure fun _ clear => clear
  refine ite (fun _ => ?_) fun _ => value _
  exact bind ((sign_clear rfl (by simp)).pre fun _ clear => clear.1) fun _ => value _

theorem elementsRest (bound : Nat) :
    Keeps source (Reader.elementsRest bound expression) (Clear source braces around)
      fun _ => Clear source braces around := by
  refine loop (bind (optional_clear rfl (by simp)) fun _ => bind ahead fun text => ?_) bound
  split
  · exact pure fun _ there => there.1
  · exact bind ((element inner).pre fun _ there => there.1) fun _ => pure fun _ clear => clear

theorem object (bound : Nat) :
    Keeps source (Reader.object bound expression)
      (fun c => Met source braces around c ∧ ∃ rest, c.rest = '{' :: rest)
      fun _ => Clear source braces around := by
  refine bind get fun start => bind (takeBrace.pre fun _ there => there.2) fun _ => ?_
  refine bind (wordAhead _) fun found => ite (fun _ => ?_) fun _ => ?_
  · refine bind ((forIntro inner).pre fun _ clear => clear.1) fun _ => bind (inner _ _) fun _ => ?_
    refine bind ((sign_clear rfl (by simp)).pre fun _ clear => clear.1) fun _ => ?_
    refine bind (inner _ _) fun _ => bind ellipsis fun _ => bind (forCondition inner) fun _ => ?_
    refine bind closeBrace fun _ => ?_
    exact bind sliceFrom fun _ => pure fun _ there => there.2
  · refine bind (optional (closeBrace.pre fun _ clear => clear.1)) fun empty => ?_
    cases empty with
    | true => exact bind sliceFrom fun _ => pure fun _ there => there.2
    | false =>
      refine bind (element inner) fun _ => bind (elementsRest inner bound) fun _ => ?_
      refine bind (closeBrace.pre fun _ clear => clear.1) fun _ => ?_
      exact bind sliceFrom fun _ => pure fun _ there => there.2

theorem arguments (bound : Nat) :
    Keeps source (Reader.arguments bound expression) (Ready source braces around)
      fun _ => Clear source braces around := by
  refine bind (sign_clear rfl (by simp)) fun _ => ?_
  refine bind (optional_clear rfl (by simp)) fun empty => ite (fun _ => ?_) fun _ => ?_
  · exact pure fun _ clear => clear
  · refine bind (inner _ _) fun _ => bind (listRest inner bound ')') fun _ => ?_
    refine bind ellipsis fun _ => bind (sign_clear rfl (by simp)) fun _ => ?_
    exact pure fun _ clear => clear

theorem named (bound : Nat) :
    Keeps source (Reader.named bound expression) (Ready source braces around)
      fun _ => Clear source braces around := by
  refine bind (mark gap) fun start => bind (name.pre fun _ there => there.2.ready) fun word => ?_
  split
  · exact pure fun _ clear => clear
  · exact pure fun _ clear => clear
  · exact pure fun _ clear => clear
  · refine bind ahead fun text => ?_
    split
    · refine bind ((arguments inner bound).pre fun _ there => there.1.1) fun _ => ?_
      exact bind sliceFrom fun _ => pure fun _ there => there.2
    · exact pure fun _ there => there.1

end Inside

end Keeps

/-- A cursor before the signs of a heredoc that stand after the same sign. -/
def Nested (source : List Char) (c : Cursor) : Prop :=
  before? source c.position = some '<' ∧ ∃ rest, c.rest = '<' :: '<' :: rest

namespace Keeps

theorem gap_operand : Keeps source Reader.skipGap
    (fun c => Clear source braces around c ∨ Nested source c)
    fun _ c => (Met source braces around c ∧ Unpointed source c) ∨ Nested source c := by
  refine either (gap_clear.post fun _ _ here => .inl here) (skipGap fun c d nested skipped => ?_)
  obtain ⟨before, rest, split⟩ := nested
  rw [split, solid_of_head (by rfl)] at skipped
  cases skipped
  exact .inr ⟨before, rest, rfl⟩

section Inside

variable {expression : Reader Expr}
  (inner : ∀ braces around, Keeps source expression (Clear source braces around)
    fun _ => Clear source braces around)

include inner

theorem primary (bound : Nat) :
    Keeps source (Reader.primary bound expression)
      (fun c => Clear source braces around c ∨ Nested source c)
      fun _ => Clear source braces around := by
  refine bind (mark gap_operand) fun start => ?_
  have met {c : Cursor} (other : ∀ rest, start.rest ≠ '<' :: '<' :: rest)
      (there : start = c ∧ (Met source braces around c ∧ Unpointed source c ∨ Nested source c)) :
      Met source braces around c ∧ Unpointed source c := by
    obtain ⟨rfl, met | ⟨-, rest, nested⟩⟩ := there
    · exact met
    · exact absurd nested (other rest)
  split
  · rename_i rest split
    refine bind ((takeSign (d := '(') rfl).pre fun c there => ?_) fun _ =>
      bind (inner braces around) fun _ => ?_
    · exact ⟨(met (by simp [split]) there).1, rest, there.1 ▸ split⟩
    · refine bind ((sign_clear rfl (by simp)).pre fun _ clear => clear.1) fun _ => ?_
      exact bind sliceFrom fun _ => pure fun _ there => there.2
  · rename_i rest split
    refine (tuple inner bound).pre fun c there => ?_
    exact ⟨(met (by simp [split]) there).1, rest, there.1 ▸ split⟩
  · rename_i rest split
    refine (object inner bound).pre fun c there => ?_
    exact ⟨(met (by simp [split]) there).1, rest, there.1 ▸ split⟩
  · rename_i rest split
    refine (quoted inner bound).pre fun c there => ?_
    exact ⟨(met (by simp [split]) there).1, rest, there.1 ▸ split⟩
  · rename_i rest split
    refine (heredoc inner bound).pre fun c there => ?_
    exact ⟨there.2.imp (·.1) (·.1), rest, there.1 ▸ split⟩
  · rename_i _ _ _ _ other
    have other : ∀ rest, start.rest ≠ '<' :: '<' :: rest := fun rest same => other rest same
    split
    · rename_i literal found
      refine bind (token fun c there regular => ?_) fun _ => pure fun _ clear => clear
      obtain ⟨here, unpointed⟩ := met other there
      rw [there.1] at found
      exact here.number unpointed found regular
    · exact (named inner bound).pre fun c there => (met other there).1.ready

/-- An operand with the signs before it. -/
theorem operand (bound : Nat) :
    Keeps source (Reader.operand expression bound)
      (fun c => Clear source braces around c ∨ Nested source c)
      fun _ => Clear source braces around := by
  induction bound with
  | zero => exact failure
  | succ bound ih =>
    refine bind (mark gap_operand) fun start => ?_
    have met {c : Cursor} {d : Char} {rest : List Char} (split : start.rest = d :: rest)
        (other : d ≠ '<')
        (there : start = c ∧ (Met source braces around c ∧ Unpointed source c ∨ Nested source c)) :
        Met source braces around c ∧ ∃ rest, c.rest = d :: rest := by
      obtain ⟨rfl, ⟨met, -⟩ | ⟨-, rest, nested⟩⟩ := there
      · exact ⟨met, _, split⟩
      · exact absurd (List.cons.inj (split.symm.trans nested)).1 other
    split
    · rename_i rest split
      refine bind ((takeSign rfl).pre fun c => met split (by decide)) fun _ => ?_
      refine bind (ih.pre fun _ clear => .inl clear) fun _ => ?_
      exact bind sliceFrom fun _ => pure fun _ there => there.2
    · rename_i rest split
      refine bind ((takeSign rfl).pre fun c => met split (by decide)) fun _ => ?_
      refine bind (ih.pre fun _ clear => .inl clear) fun _ => ?_
      exact bind sliceFrom fun _ => pure fun _ there => there.2
    · refine (primary inner (bound + 1)).pre fun c there => ?_
      exact there.2.imp (fun met => ⟨met.1.ready, met.2⟩) id

end Inside

end Keeps

end TerraDoc.Hcl
