import TerraDoc.Proofs.RegularToken
import TerraDoc.Hcl.Grammar

namespace TerraDoc.Hcl

/-- A later cursor of the same source. -/
structure Advances (c d : Cursor) : Prop where
  tokens : c.tokens <:+ d.tokens
  position : c.position ≤ d.position
  rest : d.rest = c.rest.drop (d.position - c.position)

namespace Advances

theorem refl (c : Cursor) : Advances c c :=
  ⟨List.suffix_rfl, Nat.le_refl _, by simp⟩

theorem trans {c d e : Cursor} (first : Advances c d) (second : Advances d e) : Advances c e := by
  refine ⟨first.tokens.trans second.tokens, Nat.le_trans first.position second.position, ?_⟩
  have before := first.position
  have after := second.position
  rw [second.rest, first.rest, List.drop_drop]
  congr 1
  omega

theorem take (c : Cursor) (count : Nat) :
    Advances c { c with position := c.position + count, rest := c.rest.drop count } :=
  ⟨List.suffix_rfl, Nat.le_add_right _ _, by simp⟩

theorem keep {c : Cursor} (token : Token) : Advances c { c with tokens := token :: c.tokens } :=
  ⟨List.suffix_cons _ _, Nat.le_refl _, by simp⟩

end Advances

/-- The step past a gap goes forward. -/
theorem skipGapFrom_advances (gap : Gap) (p : Nat) (tokens : List Token) (text : List Char)
    {d : Cursor} (skipped : skipGapFrom gap p tokens text = some d) :
    Advances ⟨p, text, tokens⟩ d := by
  fun_induction skipGapFrom gap p tokens text with
  | case1 p tokens rest ih => exact (Advances.take ⟨p, _, tokens⟩ 1).trans (ih skipped)
  | case2 p tokens rest ih => exact (Advances.take ⟨p, _, tokens⟩ 2).trans (ih skipped)
  | case3 p tokens rest ih => exact (Advances.take ⟨p, _, tokens⟩ 2).trans (ih skipped)
  | case4 p tokens c rest _ _ _ _ ih => exact (Advances.take ⟨p, _, tokens⟩ 1).trans (ih skipped)
  | case5 | case6 =>
    cases skipped
    exact .refl _
  | case7 =>
    cases skipped
    exact .keep _
  | case8 start read p tokens rest ih =>
    exact ((Advances.take ⟨p, _, tokens⟩ 1).trans (.keep _)).trans (ih skipped)
  | case9 start read p tokens c rest _ ih =>
    exact (Advances.take ⟨p, _, tokens⟩ 1).trans (ih skipped)
  | case10 => cases skipped
  | case11 start read p tokens rest ih =>
    exact ((Advances.take ⟨p, _, tokens⟩ 2).trans (.keep _)).trans (ih skipped)
  | case12 start read p tokens c rest _ ih =>
    exact (Advances.take ⟨p, _, tokens⟩ 1).trans (ih skipped)

/-- A place of the source that was passed before. -/
structure Since (source : List Char) (start c : Cursor) : Prop where
  placed : start.rest = source.drop start.position
  position : start.position ≤ c.position

/-- A reader goes forward, and takes what holds before it to what holds after it, provided that the
tokens up to its end are regular. -/
def Keeps {α : Type} (source : List Char) (reader : Reader α) (before : Cursor → Prop)
    (after : α → Cursor → Prop) : Prop :=
  ∀ c a d, reader c = some (a, d) →
    Advances c d ∧ ((∀ token ∈ d.tokens, token.Regular source) → before c → after a d)

namespace Keeps

variable {α β : Type} {source : List Char} {reader : Reader α} {P P' : Cursor → Prop}
  {Q Q' : α → Cursor → Prop} {R : β → Cursor → Prop}

theorem mono (keeps : Keeps source reader P Q) (weaker : ∀ c, P' c → P c)
    (stronger : ∀ a c, Q a c → Q' a c) : Keeps source reader P' Q' := by
  intro c a d run
  obtain ⟨advances, holds⟩ := keeps c a d run
  exact ⟨advances, fun regular here => stronger a d (holds regular (weaker c here))⟩

theorem pre (keeps : Keeps source reader P Q) (weaker : ∀ c, P' c → P c) :
    Keeps source reader P' Q :=
  keeps.mono weaker fun _ _ holds => holds

theorem post (keeps : Keeps source reader P Q) (stronger : ∀ a c, Q a c → Q' a c) :
    Keeps source reader P Q' :=
  keeps.mono (fun _ holds => holds) stronger

theorem moves (keeps : Keeps source reader P Q) :
    Keeps source reader (fun _ => False) fun _ _ => False := by
  intro c a d run
  exact ⟨(keeps c a d run).1, fun _ never => never⟩

theorem either (first : Keeps source reader P Q) (second : Keeps source reader P' Q) :
    Keeps source reader (fun c => P c ∨ P' c) Q := by
  intro c a d run
  refine ⟨(first c a d run).1, fun regular here => ?_⟩
  rcases here with here | here
  · exact (first c a d run).2 regular here
  · exact (second c a d run).2 regular here

theorem bind {next : α → Reader β} (first : Keeps source reader P Q)
    (later : ∀ a, Keeps source (next a) (Q a) R) : Keeps source (reader >>= next) P R := by
  intro c b e run
  change (reader c).bind _ = some (b, e) at run
  obtain ⟨⟨a, d⟩, taken, run⟩ := Option.bind_eq_some_iff.mp run
  obtain ⟨forward, holds⟩ := first c a d taken
  obtain ⟨onward, holds'⟩ := later a d b e run
  refine ⟨forward.trans onward, fun regular here => holds' regular (holds ?_ here)⟩
  exact fun token member => regular token (onward.tokens.mem member)

theorem pure {a : α} (holds : ∀ c, P c → Q a c) :
    Keeps source (Pure.pure a : Reader α) P Q := by
  rintro c _ _ ⟨⟩
  exact ⟨.refl c, fun _ here => holds c here⟩

theorem failure : Keeps source (Alternative.failure : Reader α) P Q := by
  rintro c a d ⟨⟩

theorem never {next : β → Reader α} :
    Keeps source ((Alternative.failure : Reader β) >>= next) P Q := by
  rintro c a d ⟨⟩

theorem get : Keeps source (MonadState.get : Reader Cursor) P fun a c => a = c ∧ P c := by
  rintro c _ _ ⟨⟩
  exact ⟨.refl c, fun _ here => ⟨rfl, here⟩⟩

theorem take {count : Nat} {after : Unit → Cursor → Prop}
    (holds : ∀ c, P c → after () ⟨c.position + count, c.rest.drop count, c.tokens⟩) :
    Keeps source (Reader.take count) P after := by
  rintro c _ _ ⟨⟩
  exact ⟨.take c count, fun _ here => holds c here⟩

theorem token {make : Slice → Token} {count : Nat} {after : Slice → Cursor → Prop}
    (holds : ∀ c, P c → (make ⟨c.position, c.rest.take count⟩).Regular source →
      after ⟨c.position, c.rest.take count⟩ ⟨c.position + count, c.rest.drop count,
        make ⟨c.position, c.rest.take count⟩ :: c.tokens⟩) :
    Keeps source (Reader.token make count) P after := by
  rintro c _ _ ⟨⟩
  refine ⟨(Advances.take c count).trans (.keep _), fun regular here => holds c here ?_⟩
  exact regular _ List.mem_cons_self

theorem keep {token : Token} {after : Unit → Cursor → Prop}
    (holds : ∀ c, P c → token.Regular source → after () { c with tokens := token :: c.tokens }) :
    Keeps source (Reader.keep token) P after := by
  rintro c _ _ ⟨⟩
  exact ⟨.keep token, fun regular here => holds c here (regular _ List.mem_cons_self)⟩

theorem skipGap {after : Unit → Cursor → Prop}
    (holds : ∀ c d, P c → skipGapFrom .blank c.position c.tokens c.rest = some d → after () d) :
    Keeps source Reader.skipGap P after := by
  intro c a d run
  change (skipGapFrom .blank c.position c.tokens c.rest).bind _ = some (a, d) at run
  obtain ⟨there, skipped, run⟩ := Option.bind_eq_some_iff.mp run
  cases run
  exact ⟨skipGapFrom_advances _ _ _ _ skipped, fun _ here => holds c d here skipped⟩

theorem mark (keeps : Keeps source Reader.skipGap P fun _ => P') :
    Keeps source Reader.mark P fun a c => a = c ∧ P' c :=
  bind keeps fun _ => get

theorem ahead : Keeps source Reader.ahead P fun text c => P c ∧
    ∃ d, skipGapFrom .blank c.position c.tokens c.rest = some d ∧ d.rest = text := by
  intro c text d run
  change (Reader.skipGap c).bind _ = some (text, d) at run
  obtain ⟨⟨⟨⟩, there⟩, skipped, run⟩ := Option.bind_eq_some_iff.mp run
  change (skipGapFrom .blank c.position c.tokens c.rest).bind _ = some ((), there) at skipped
  obtain ⟨e, skipped, same⟩ := Option.bind_eq_some_iff.mp skipped
  cases same
  cases run
  exact ⟨.refl c, fun _ here => ⟨here, there, skipped, rfl⟩⟩

theorem sliceFrom {origin : Cursor} : Keeps source (Reader.sliceFrom origin) P fun slice c =>
    slice = ⟨origin.position, origin.rest.take (c.position - origin.position)⟩ ∧ P c := by
  rintro c _ _ ⟨⟩
  exact ⟨.refl c, fun _ here => ⟨rfl, here⟩⟩

theorem ite {condition : Prop} [Decidable condition] {first second : Reader α}
    (yes : condition → Keeps source first P Q) (no : ¬ condition → Keeps source second P Q) :
    Keeps source (if condition then first else second) P Q := by
  by_cases holds : condition
  · rw [if_pos holds]
    exact yes holds
  · rw [if_neg holds]
    exact no holds

theorem since (keeps : Keeps source reader P Q) (start : Cursor) :
    Keeps source reader (fun c => P c ∧ Since source start c)
      fun a c => Q a c ∧ Since source start c := by
  intro c a d run
  obtain ⟨advances, holds⟩ := keeps c a d run
  refine ⟨advances, fun regular ⟨here, passed⟩ => ⟨holds regular here, passed.placed, ?_⟩⟩
  exact Nat.le_trans passed.position advances.position

theorem repeated {step : Reader (Option α)} {during ended : List α → Cursor → Prop}
    (keeps : ∀ given, Keeps source step (during given)
      fun found => found.elim (ended given) fun a => during (given ++ [a]))
    (bound : Nat) (given : List α) :
    Keeps source (Reading.repeated bound step) (during given)
      fun list => ended (given ++ list) := by
  induction bound generalizing given with
  | zero => exact failure
  | succ bound ih =>
    apply bind (keeps given)
    intro found
    cases found with
    | none => exact pure fun c holds => by simpa using holds
    | some a =>
      apply bind (ih (given ++ [a]))
      intro list
      exact pure fun c holds => by simpa using holds

theorem loop {step : Reader (Option α)}
    (keeps : Keeps source step P fun found => found.elim P' fun _ => P) (bound : Nat) :
    Keeps source (Reading.repeated bound step) P fun _ => P' :=
  @repeated α source step (fun _ => P) (fun _ => P') (fun _ => keeps) bound []

end Keeps

end TerraDoc.Hcl
