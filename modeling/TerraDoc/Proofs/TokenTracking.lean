import TerraDoc.Proofs.GapTracking
import TerraDoc.Proofs.NameScan
import TerraDoc.Proofs.NumberScan

namespace TerraDoc.Hcl

open Exponent

/-- A cursor after a token that does not end in a point. -/
def Clear (source : List Char) (braces : Nat) (around : List Mode) (c : Cursor) : Prop :=
  Ready source braces around c ∧ Unpointed source c

variable {source : List Char} {braces : Nat} {around : List Mode} {c : Cursor}

theorem stateAt_previous (source : List Char) (p : Nat) :
    (stateAt source p).previous = (before? source p).getD ' ' :=
  scan_previous _ _ _

theorem Unpointed.previous (unpointed : Unpointed source c) (nonempty : c.rest ≠ []) :
    (stateAt source c.position).previous ≠ '.' := by
  have before := unpointed nonempty
  rw [stateAt_previous]
  cases found : before? source c.position with
  | none => simp
  | some d =>
    rintro same
    exact before (by rw [found, ← same]; rfl)

/-- Signs that mean nothing to the normaliser, not even between indices. -/
def isPlainSign : List Char → Bool
  | [] => false
  | ['.'] => false
  | '.' :: c :: rest => !c.isDigit && (c :: rest).all isInert
  | sign => sign.all isInert

theorem isPlainSign_cases {sign : List Char} (plain : isPlainSign sign = true) :
    ∃ c tail, sign = c :: tail ∧ isInert c = true ∧ (∀ d ∈ tail, isInert d = true) ∧
      (c = '.' → ∃ d rest, tail = d :: rest ∧ d.isDigit = false) := by
  cases sign with
  | nil => cases plain
  | cons c tail =>
    by_cases point : c = '.'
    · subst point
      cases tail with
      | nil => cases plain
      | cons d rest =>
        simp only [isPlainSign, Bool.and_eq_true, Bool.not_eq_true'] at plain
        exact ⟨'.', d :: rest, rfl, rfl, List.all_eq_true.mp plain.2,
          fun _ => ⟨d, rest, rfl, plain.1⟩⟩
    · have all : isPlainSign (c :: tail) = (c :: tail).all isInert := by
        unfold isPlainSign
        split <;> simp_all
      rw [all, List.all_cons, Bool.and_eq_true] at plain
      exact ⟨c, tail, rfl, plain.1, List.all_eq_true.mp plain.2, fun same => absurd same point⟩

theorem Met.sign {sign rest : List Char} (met : Met source braces around c)
    (split : c.rest = sign ++ rest) (plain : isPlainSign sign = true) :
    Ready source braces around ⟨c.position + sign.length, rest, c.tokens⟩ := by
  obtain ⟨d, tail, rfl, first, others, point⟩ := isPlainSign_cases plain
  have fresh : Fresh (stateAt source c.position) (d :: (tail ++ rest)) := by
    rw [← List.cons_append, ← split]
    refine met.boundary.fresh fun digit after shape => ?_
    rw [split] at shape
    obtain ⟨head, next⟩ := List.cons.inj shape
    obtain ⟨e, more, rfl, other⟩ := point head
    exact (List.cons.inj next).1 ▸ other
  have scanned := scans_inert met.mode fresh first
  obtain ⟨previous, later⟩ := @scans_inert_all
    { stateAt source c.position with phase := .start, previous := d } braces tail rest met.mode
    rfl others
  obtain ⟨code, state⟩ :=
    met.toInCode.forward split (scanned.append later) met.mode met.around
  exact code.start state rfl

/-- A place after a piece of text is clear unless the text ends in a point. -/
theorem Ready.clear (text : List Char) {rest : List Char} (tracks : Tracks source c)
    (split : c.rest = text ++ rest) (nonempty : text ≠ []) (last : text.getLast? ≠ some '.')
    {tokens : List Token}
    (ready : Ready source braces around ⟨c.position + text.length, rest, tokens⟩) :
    Clear source braces around ⟨c.position + text.length, rest, tokens⟩ := by
  refine ⟨ready, fun _ => ?_⟩
  show before? source (c.position + text.length) ≠ some '.'
  rw [before?_add text (by rw [← tracks.placed, split]) nonempty]
  exact last

theorem Met.open {rest : List Char} (met : Met source braces around c)
    (split : c.rest = '{' :: rest) :
    Clear source (braces + 1) around ⟨c.position + 1, rest, c.tokens⟩ := by
  have scanned := scans_fresh { stateAt source c.position with
      mode := .code (braces + 1), phase := .start }
    (met.ready.fresh split rfl (by decide)) (by simp [freshStep, met.mode, codeStep]) (by simp)
  obtain ⟨code, state⟩ := met.toInCode.forward split scanned rfl met.around
  exact (code.start state rfl).clear ['{'] met.tracks split (by simp) (by simp)

theorem Met.close {rest : List Char} (met : Met source (braces + 1) around c)
    (split : c.rest = '}' :: rest) :
    Clear source braces around ⟨c.position + 1, rest, c.tokens⟩ := by
  have scanned := scans_fresh { stateAt source c.position with
      mode := .code braces, phase := .start }
    (met.ready.fresh split rfl (by decide)) (by simp [freshStep, met.mode, codeStep]) (by simp)
  obtain ⟨code, state⟩ := met.toInCode.forward split scanned rfl met.around
  exact (code.start state rfl).clear ['}'] met.tracks split (by simp) (by simp)

/-- A name is a word to the normaliser. -/
theorem Met.name {word : List Char} (met : Met source braces around c)
    (found : name? c.rest = some word) :
    Clear source braces around ⟨c.position + word.length, c.rest.drop word.length,
      .name ⟨c.position, c.rest.take word.length⟩ :: c.tokens⟩ := by
  obtain ⟨d, tail, after, here, rfl, starts, shape, ends⟩ := name?_shape found
  have point : d ≠ '.' := by rintro rfl; exact absurd starts (by decide)
  have blank : isBlank d = false := by
    by_contra blank
    have inert := isInert_of_isBlank (by simpa using blank)
    simp [isInert, starts] at inert
  have fresh := met.ready.fresh here blank point
  have first := scans_first_letter met.mode fresh starts
  obtain ⟨previous, later⟩ := @scans_wordTail
    { stateAt source c.position with phase := .word, previous := d } tail after rfl shape
  have whole : Scans Silent (stateAt source c.position) (d :: tail) after
      { stateAt source c.position with phase := .word, previous } := first.append later
  obtain ⟨code, state⟩ := met.toInCode.token here whole .name (fun _ => rfl) (fun _ => rfl)
    met.mode met.around
  rw [here, List.drop_left, List.take_left]
  refine Ready.clear _ met.tracks here (by simp) (fun last => ?_) ⟨code, .inl (.inl ?_)⟩
  · rcases List.mem_cons.mp (List.mem_of_getLast? last) with same | inside
    · exact point same.symm
    · exact shape.unpointed inside
  · rw [state]
    exact fresh_after_word rfl met.mode ends

/-- In the scan of a number the points that occur are the points of its text. -/
theorem Exponent.ScansNumber.points {literal rest : List Char} {p : Nat} {t : State}
    (scanned : ScansNumber (stateAt source p) literal rest t)
    (split : source.drop p = literal ++ rest) {i : Nat} (start : p ≤ i)
    (before : i < p + literal.length) :
    ¬ Occurs Unopened source i ∧ (Occurs Point source i ↔ literal[i - p]? = some '.') := by
  have numeral := scanned.scanned.occurs split start before
  refine ⟨numeral.not_of fun _ _ _ step => step.opened, ?_⟩
  obtain ⟨d, after, here, step⟩ := numeral
  have found : literal[i - p]? = some d := by
    have whole : (source.drop p)[i - p]? = some d := by
      rw [List.getElem?_drop, Nat.add_sub_cancel' start, ← Nat.add_zero i, ← List.getElem?_drop,
        here]
      rfl
    rwa [split, List.getElem?_append_left (by omega)] at whole
  rw [found]
  constructor
  · rintro ⟨e, tail, there, point⟩
    obtain ⟨rfl, rfl⟩ := List.cons.inj (here.symm.trans there)
    rw [step.point.mp point]
  · intro same
    exact ⟨d, after, here, step.point.mpr (Option.some.inj same)⟩

/-- A number literal is one number to the normaliser. -/
theorem Met.number {literal : List Char} (met : Met source braces around c)
    (unpointed : Unpointed source c) (found : number? c.rest = some literal)
    (regular : (Token.number ⟨c.position, c.rest.take literal.length⟩).Regular source) :
    Clear source braces around ⟨c.position + literal.length, c.rest.drop literal.length,
      .number ⟨c.position, c.rest.take literal.length⟩ :: c.tokens⟩ := by
  have digit := digitFollows_of_number? found
  have nonempty : c.rest ≠ [] := by
    intro empty
    rw [empty] at digit
    cases digit
  have fresh : Fresh (stateAt source c.position) c.rest :=
    met.boundary.fresh fun _ _ shape => by simp [shape, digitFollows] at digit
  obtain ⟨rest, t, split, scanned, filled, last, ends⟩ :=
    scansNumber met.mode fresh (unpointed.previous nonempty) found
  have here : source.drop c.position = literal ++ rest := by rw [← met.tracks.placed, split]
  have state := scanned.scanned.stateAt_eq here
  have left := drop_of_split literal here
  rw [split, List.take_left] at regular
  rw [split, List.drop_left, List.take_left]
  have tracks := met.tracks.number split (fun _ => scanned.points here) last
  refine Ready.clear literal met.tracks split filled last ⟨⟨tracks, ?_, ?_⟩, .inl (.inl ?_)⟩
  · rw [state, scanned.mode, met.mode]
  · rw [state, scanned.around, met.around]
  · rw [state]
    have after : source.drop (Slice.stop ⟨c.position, literal⟩) = rest := left
    obtain ⟨hexadecimal, fraction⟩ := regular
    rw [after] at hexadecimal fraction
    refine ends ⟨hexadecimal, fraction⟩ fun d after shape => ?_
    have inside : c.position + literal.length < source.length := by
      by_contra outside
      rw [List.drop_eq_nil_of_le (Nat.le_of_not_lt outside), shape] at left
      cases left
    obtain ⟨e, tail, next, unmarked⟩ := met.tracks.normal _ inside
    rw [left, shape] at next
    obtain ⟨rfl, rfl⟩ := List.cons.inj next
    rwa [state] at unmarked

namespace Keeps

variable {P Q : Cursor → Prop}

theorem gap : Keeps source Reader.skipGap (Ready source braces around)
    fun _ => Met source braces around :=
  skipGap fun _ _ ready skipped => skipGapFrom_met .blank _ _ _ ready skipped

theorem gap_clear : Keeps source Reader.skipGap (Clear source braces around)
    fun _ c => Met source braces around c ∧ Unpointed source c :=
  skipGap fun _ _ clear skipped => ⟨skipGapFrom_met .blank _ _ _ clear.1 skipped,
    skipGapFrom_unpointed _ _ _ _ clear.1.tracks.placed.symm (fun _ => clear.2) skipped⟩

theorem symbol {sign : List Char} {after : Unit → Cursor → Prop}
    (step : ∀ c rest, Met source braces around c → c.rest = sign ++ rest →
      after () ⟨c.position + sign.length, rest, c.tokens⟩) :
    Keeps source (Reader.symbol sign) (Ready source braces around) after := by
  refine bind gap fun _ => bind get fun here => ite (fun starts => ?_) fun _ => failure
  rintro c _ d ⟨⟩
  refine ⟨.take c _, fun _ ⟨same, met⟩ => ?_⟩
  subst same
  obtain ⟨rest, split⟩ := List.isPrefixOf_iff_prefix.mp starts
  have left : here.rest.drop sign.length = rest := by rw [← split, List.drop_left]
  rw [left]
  exact step here rest met split.symm

theorem sign {sign : List Char} (plain : isPlainSign sign = true) :
    Keeps source (Reader.symbol sign) (Ready source braces around)
      fun _ => Ready source braces around :=
  symbol fun _ _ met split => met.sign split plain

theorem sign_clear {sign : List Char} (plain : isPlainSign sign = true)
    (last : sign.getLast? ≠ some '.') :
    Keeps source (Reader.symbol sign) (Ready source braces around)
      fun _ => Clear source braces around := by
  refine symbol fun _ _ met split => (met.sign split plain).clear _ met.tracks split ?_ last
  rintro rfl
  cases plain

theorem optional {sign : List Char} (keeps : Keeps source (Reader.symbol sign) P fun _ => Q) :
    Keeps source (Reader.optional? sign) P fun found => cond found Q P := by
  refine bind ahead fun text => ite (fun _ => ?_) fun _ => pure fun _ here => here.1
  refine bind (keeps.pre fun _ here => here.1) fun _ => pure fun _ here => here

theorem name : Keeps source Reader.name (Ready source braces around)
    fun _ => Clear source braces around := by
  refine bind (mark gap) fun start => ?_
  cases found : name? start.rest with
  | none => exact failure
  | some word =>
    refine token fun c ⟨same, met⟩ _ => ?_
    subst same
    exact met.name found

theorem word (expected : List Char) :
    Keeps source (Reader.word expected) (Ready source braces around)
      fun _ => Clear source braces around :=
  bind name fun _ => ite (fun _ => pure fun _ here => here) fun _ => failure

theorem wordAhead (expected : List Char) : Keeps source (Reader.wordAhead expected) P fun _ => P :=
  bind ahead fun _ => pure fun _ here => here.1

end Keeps

end TerraDoc.Hcl
