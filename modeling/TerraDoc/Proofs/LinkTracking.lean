import TerraDoc.Proofs.GrammarTracking

namespace TerraDoc.Hcl

open Exponent

variable {source : List Char} {braces : Nat} {around : List Mode} {c : Cursor}

/-- A cursor with a text after its gap. -/
def Facing (text : List Char) (c : Cursor) : Prop :=
  ∃ d, skipGapFrom .blank c.position c.tokens c.rest = some d ∧ d.rest = text

theorem Met.less {tail rest : List Char} (met : Met source braces around c)
    (split : c.rest = '<' :: tail ++ rest) (inert : ∀ d ∈ tail, isInert d = true ∧ d ≠ '.')
    (single : ∀ after, tail ++ rest ≠ '<' :: after) :
    Clear source braces around ⟨c.position + (tail.length + 1), rest, c.tokens⟩ := by
  have taken : freshStep (stateAt source c.position) '<' (tail ++ rest) =
      (stateAt source c.position).goOn .start := by
    simp only [freshStep, met.mode]
    unfold codeStep
    split <;> simp_all [startsWord]
  have first := scans_fresh _ (met.ready.fresh split rfl (by decide)) taken (by simp [State.goOn])
  obtain ⟨previous, later⟩ := @scans_inert_all
    { (stateAt source c.position).goOn .start with previous := '<' } braces tail rest met.mode rfl
    fun d member => (inert d member).1
  obtain ⟨code, state⟩ := met.toInCode.forward split (first.append later) met.mode met.around
  refine (code.start state rfl).clear _ met.tracks split (by simp) fun last => ?_
  rcases List.mem_cons.mp (List.mem_of_getLast? last) with same | inside
  · cases same
  · exact (inert '.' inside).2 rfl

theorem Solid.slash {rest : List Char} (solid : Solid ('/' :: rest)) :
    ∀ after, rest ≠ '/' :: after ∧ rest ≠ '*' :: after := by
  intro after
  have skipped := solid 0 []
  constructor
  all_goals
    rintro rfl
    rw [skipGapFrom] at skipped
    exact absurd (skipGapFrom_advances _ _ _ _ skipped).position (Nat.not_succ_le_zero 1)

theorem Met.slash {rest : List Char} (met : Met source braces around c)
    (split : c.rest = '/' :: rest) :
    Clear source braces around ⟨c.position + 1, rest, c.tokens⟩ := by
  have single := (split ▸ met.solid).slash
  have taken : freshStep (stateAt source c.position) '/' rest =
      (stateAt source c.position).goOn .start := by
    simp only [freshStep, met.mode]
    unfold codeStep
    split <;> simp_all [startsWord]
  have scanned := scans_fresh _ (met.ready.fresh split rfl (by decide)) taken (by simp)
  obtain ⟨code, state⟩ := met.toInCode.forward split scanned met.mode met.around
  exact (code.start state rfl).clear ['/'] met.tracks split (by simp) (by simp)

/-- The operators: plain signs, a slash, and the signs that begin with `<`. -/
theorem operatorLength?_cases {text : List Char} {length : Nat}
    (found : Reader.operatorLength? text = some length) :
    (isPlainSign (text.take length) = true ∧ (text.take length).getLast? ≠ some '.') ∨
      (∃ rest, text = '/' :: rest ∧ length = 1) ∨
      (∃ rest, text = '<' :: '<' :: '<' :: rest ∧ length = 1) ∨
      ∃ tail rest, text = '<' :: tail ++ rest ∧ length = tail.length + 1 ∧
        (∀ d ∈ tail, isInert d = true ∧ d ≠ '.') ∧ ∀ after, tail ++ rest ≠ '<' :: after := by
  unfold Reader.operatorLength? at found
  split at found
  case h_3 rest =>
    cases found
    have inert : ∀ d ∈ ['='], isInert d = true ∧ d ≠ '.' :=
      List.all_iff_forall_prop.mp (by decide)
    exact .inr (.inr (.inr ⟨['='], rest, rfl, rfl, inert, by simp⟩))
  case h_7 rest =>
    cases found
    exact .inr (.inr (.inl ⟨rest, rfl, rfl⟩))
  case h_8 | h_16 => cases found
  case h_10 rest =>
    cases found
    exact .inr (.inl ⟨rest, rfl, rfl⟩)
  case h_14 rest _ _ _ =>
    cases found
    refine .inr (.inr (.inr ⟨[], rest, rfl, rfl, by simp, ?_⟩))
    rintro after rfl
    simp_all
  all_goals
    cases found
    exact .inl ⟨rfl, by simp⟩

/-- A cursor after a point. The normaliser may have taken the point for one of a number. -/
def AfterPoint (source : List Char) (braces : Nat) (around : List Mode) (c : Cursor) : Prop :=
  Ready source braces around c ∨
    InCode source braces around c ∧ (stateAt source c.position).phase = .fraction ∧
      digitFollows c.rest = true

theorem solid_of_digitFollows {text : List Char} (follows : digitFollows text = true) :
    Solid text := by
  cases text with
  | nil => cases follows
  | cons d rest =>
    exact solid_of_head (digit_cases (fun d => startsToken d = true) (by decide) follows)

theorem AfterPoint.ready {text : List Char} (place : AfterPoint source braces around c)
    (facing : Facing text c) (other : digitsOf? text = none) : Ready source braces around c := by
  rcases place with ready | ⟨-, -, follows⟩
  · exact ready
  · obtain ⟨d, skipped, rfl⟩ := facing
    have stays := solid_of_digitFollows follows c.position c.tokens
    obtain rfl : c = d := Option.some.inj (stays.symm.trans skipped)
    rw [digitsOf?_none other] at follows
    cases follows

theorem Met.point {rest : List Char} (met : Met source braces around c)
    (split : c.rest = '.' :: rest) :
    AfterPoint source braces around ⟨c.position + 1, rest, c.tokens⟩ := by
  rcases met.boundary with fresh | ⟨phase, digit, after, shape, isDigit⟩
  · have scanned := scans_inert met.mode (split ▸ fresh) (by decide)
    obtain ⟨code, state⟩ := met.toInCode.forward split scanned met.mode met.around
    exact .inl (code.start state rfl)
  · obtain rfl : rest = digit :: after := (List.cons.inj (split.symm.trans shape)).2
    have scanned := scans_step (@phaseStep_point _ _ (digit :: after) phase isDigit) (by simp [phase]) (by simp)
    obtain ⟨code, state⟩ := met.toInCode.forward split scanned met.mode met.around
    exact .inr ⟨code, congrArg State.phase state, isDigit⟩

/-- The digits of an index. -/
theorem AfterPoint.index {digits : List Char}
    (place : Met source braces around c ∨
      InCode source braces around c ∧ (stateAt source c.position).phase = .fraction)
    (found : digitsOf? c.rest = some digits)
    (regular : (Token.index ⟨c.position, c.rest.take digits.length⟩).Regular source) :
    Clear source braces around ⟨c.position + digits.length, c.rest.drop digits.length,
      .index ⟨c.position, c.rest.take digits.length⟩ :: c.tokens⟩ := by
  obtain ⟨rest, split, nonempty, isDigit, ends⟩ := digitsOf?_split found
  rw [split, List.take_left] at regular
  rw [split, List.drop_left, List.take_left]
  obtain ⟨before, unmarked⟩ := regular
  have code : InCode source braces around c := place.elim (·.toInCode) (·.1)
  have here : source.drop c.position = digits ++ rest := by rw [← code.tracks.placed, split]
  rw [show source.drop (Slice.stop ⟨c.position, digits⟩) = rest from drop_of_split digits here]
    at unmarked
  have last : digits.getLast? ≠ some '.' := fun last =>
    digits_unpointed isDigit (List.mem_of_getLast? last)
  obtain ⟨t, scanned, mode, modes, boundary⟩ : ∃ t,
      Scans Silent (stateAt source c.position) digits rest t ∧ t.mode = .code braces ∧
        t.around = around ∧ Boundary t rest := by
    rcases place with met | ⟨code, fraction⟩
    · have fresh : Fresh (stateAt source c.position) (digits ++ rest) := by
        rw [← split]
        refine met.boundary.fresh fun digit after shape => ?_
        cases digits with
        | nil => exact absurd rfl nonempty
        | cons d digits =>
          rw [split] at shape
          have digit := isDigit d List.mem_cons_self
          rw [(List.cons.inj shape).1] at digit
          cases digit
      obtain ⟨previous, scanned⟩ := scans_whole met.mode fresh isDigit nonempty
      have index : (stateAt source c.position).previous = '.' := by
        rw [stateAt_previous, before]
        rfl
      rw [index] at scanned
      refine ⟨_, scanned, met.mode, met.around, ?_⟩
      by_cases another : ∃ digit after, rest = '.' :: digit :: after ∧ digit.isDigit = true
      · exact .inr ⟨rfl, another⟩
      · left
        cases rest with
        | nil => exact fresh_nil _
        | cons d rest =>
          refine fresh_digits rfl ends rfl fun ⟨point, follows⟩ => another ?_
          cases rest with
          | nil => cases follows
          | cons e rest => exact ⟨e, rest, by rw [point], follows⟩
    · obtain ⟨previous, scanned⟩ := @scans_digits _ digits rest (.inr (.inl fraction)) isDigit
      refine ⟨_, scanned, code.mode, code.around, .inl ?_⟩
      cases rest with
      | nil => exact fresh_nil _
      | cons d rest => exact fresh_fraction fraction ends (unmarked d rfl)
  obtain ⟨read, state⟩ := code.token split scanned .index (fun _ => rfl) (fun _ => rfl) mode modes
  refine Ready.clear digits code.tracks split nonempty last ⟨read, .inl ?_⟩
  rwa [state]

namespace Keeps

theorem symbol_facing {sign text : List Char} {after : Unit → Cursor → Prop}
    (step : ∀ c rest, Met source braces around c → c.rest = text → text = sign ++ rest →
      after () ⟨c.position + sign.length, rest, c.tokens⟩) :
    Keeps source (Reader.symbol sign)
      (fun c => Ready source braces around c ∧ Facing text c) after := by
  have faced : Keeps source Reader.skipGap (fun c => Ready source braces around c ∧ Facing text c)
      fun _ c => Met source braces around c ∧ c.rest = text := by
    refine skipGap fun c d ⟨ready, e, seen, same⟩ skipped => ?_
    rw [skipped] at seen
    cases seen
    exact ⟨skipGapFrom_met .blank _ _ _ ready skipped, same⟩
  refine bind faced fun _ => bind get fun here => ite (fun starts => ?_) fun _ => failure
  refine take fun c ⟨same, met, shown⟩ => ?_
  subst same
  obtain ⟨rest, split⟩ := List.isPrefixOf_iff_prefix.mp starts
  rw [← split, List.drop_left]
  exact step here rest met shown (shown ▸ split.symm)

theorem point : Keeps source (Reader.symbol ['.']) (Ready source braces around)
    fun _ => AfterPoint source braces around :=
  symbol fun _ _ met split => met.point split

theorem gap_afterPoint {text : List Char} :
    Keeps source Reader.skipGap
      (fun c => AfterPoint source braces around c ∧ Facing text c)
      fun _ c => (Met source braces around c ∨
        InCode source braces around c ∧ (stateAt source c.position).phase = .fraction) ∧
        c.rest = text := by
  refine skipGap fun c d ⟨place, e, seen, same⟩ skipped => ?_
  obtain rfl : d = e := Option.some.inj (skipped.symm.trans seen)
  refine ⟨?_, same⟩
  rcases place with ready | ⟨code, fraction, follows⟩
  · exact .inl (skipGapFrom_met .blank _ _ _ ready skipped)
  · have stays := solid_of_digitFollows follows c.position c.tokens
    obtain rfl : c = d := Option.some.inj (stays.symm.trans skipped)
    exact .inr ⟨code, fraction⟩

/-- An operator is read where it was seen ahead. -/
theorem operator {text : List Char} {length : Nat}
    (found : Reader.operatorLength? text = some length) :
    Keeps source (Reader.symbol (text.take length))
      (fun c => Ready source braces around c ∧ Facing text c)
      fun _ c => Clear source braces around c ∨ Nested source c := by
  refine symbol_facing fun c rest met same split => ?_
  rcases operatorLength?_cases found with ⟨plain, last⟩ | ⟨after, rfl, rfl⟩ | ⟨after, rfl, rfl⟩ |
    ⟨tail, after, rfl, rfl, inert, single⟩
  · rw [split] at same
    refine .inl ((met.sign same plain).clear _ met.tracks same ?_ last)
    intro empty
    rw [empty] at plain
    cases plain
  · obtain rfl : after = rest := (List.cons.inj split).2
    exact .inl (met.slash same)
  · obtain rfl : '<' :: '<' :: after = rest := (List.cons.inj split).2
    refine .inr ⟨?_, after, rfl⟩
    exact before?_add ['<'] (by rw [← met.tracks.placed, same]; rfl) (by simp)
  · have taken : ('<' :: tail ++ after).take (tail.length + 1) = '<' :: tail :=
      @List.take_left _ ('<' :: tail) after
    rw [taken] at split ⊢
    obtain rfl : after = rest := List.append_cancel_left split
    exact .inl (met.less same inert single)

section Inside

variable {expression : Reader Expr}
  (inner : ∀ braces around, Keeps source expression (Clear source braces around)
    fun _ => Clear source braces around)

include inner

theorem link (bound : Nat) :
    Keeps source (Reader.link bound expression) (Clear source braces around)
      fun found => found.elim (Clear source braces around) fun _ => Clear source braces around := by
  refine bind ahead fun text => ?_
  split
  · exact pure fun _ there => there.1
  · refine bind ((sign_clear rfl (by simp)).pre fun _ there => there.1.1) fun _ => ?_
    exact pure fun _ clear => clear
  · refine bind (point.pre fun _ there => there.1.1) fun _ => bind ahead fun text => ?_
    split
    · rename_i digits found
      refine bind gap_afterPoint fun _ => bind (token fun c ⟨place, same⟩ regular => ?_) fun _ =>
        pure fun _ clear => clear
      exact AfterPoint.index place (same ▸ found) regular
    · rename_i other
      refine bind (name.pre fun c ⟨place, facing⟩ => place.ready facing other) fun _ => ?_
      exact pure fun _ clear => clear
  · refine bind ((sign_clear rfl (by simp)).pre fun _ there => there.1.1) fun _ => ?_
    exact pure fun _ clear => clear
  · refine bind ((sign_clear rfl (by simp)).pre fun _ there => there.1.1) fun _ => ?_
    refine bind (inner _ _) fun _ => ?_
    refine bind ((sign_clear rfl (by simp)).pre fun _ clear => clear.1) fun _ => ?_
    exact pure fun _ clear => clear
  · split
    · rename_i length found
      refine bind ((operator found).pre fun _ there => ⟨there.1.1, there.2⟩) fun _ => ?_
      exact bind (operand inner bound) fun _ => pure fun _ clear => clear
    · exact pure fun _ there => there.1

end Inside

end Keeps

end TerraDoc.Hcl
