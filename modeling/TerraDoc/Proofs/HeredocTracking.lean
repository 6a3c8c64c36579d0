import TerraDoc.Proofs.HeredocScan
import TerraDoc.Proofs.TemplateTracking

namespace TerraDoc.Hcl

open Exponent

variable {source : List Char} {braces : Nat} {around : List Mode} {c : Cursor}

/-- A text that begins with blanks, as many characters as a marker has, and the end of the line. -/
def Closing (marker text : List Char) : Prop :=
  AtLineEnd ((text.dropWhile isBlank).drop marker.length)

theorem sharedLength_le (marker text : List Char) :
    Reader.sharedLength marker text ≤ marker.length := by
  fun_induction Reader.sharedLength marker text with
  | case1 a as bs ih => simpa using ih
  | case2 => simp
  | case3 => simp

theorem repeated_last {α : Type} {step : Reader (Option α)} {bound : Nat} {c d : Cursor}
    {list : List α} (run : Reading.repeated bound step c = some (list, d)) :
    ∃ last, step last = some (none, d) := by
  induction bound generalizing c list with
  | zero => cases run
  | succ bound ih =>
    change (step c).bind _ = some (list, d) at run
    obtain ⟨⟨found, there⟩, taken, run⟩ := Option.bind_eq_some_iff.mp run
    cases found with
    | none =>
      cases run
      exact ⟨c, taken⟩
    | some a =>
      change (Reading.repeated bound step there).bind _ = some (list, d) at run
      obtain ⟨⟨others, finish⟩, later, run⟩ := Option.bind_eq_some_iff.mp run
      cases run
      exact ih later

theorem drop_takeWhile {kind : Char → Bool} {text rest : List Char}
    (split : text = text.takeWhile kind ++ rest) : text.drop (text.takeWhile kind).length = rest := by
  rw [congrArg (List.drop (text.takeWhile kind).length) split, List.drop_left]

/-- A step that gives nothing more from a cursor only where something holds. -/
def StopsAt {α : Type} (step : Reader (Option α)) (c : Cursor) (place : Cursor → Prop) : Prop :=
  ∀ d, step c = some (none, d) → place d

namespace StopsAt

variable {α β : Type} {place : Cursor → Prop}

theorem get {next : Cursor → Reader (Option α)} (stops : StopsAt (next c) c place) :
    StopsAt (MonadState.get >>= next) c place :=
  stops

theorem after {reader : Reader β} {next : β → Reader (Option α)}
    (stops : ∀ b d, StopsAt (next b) d place) : StopsAt (reader >>= next) c place := by
  intro e run
  change (reader c).bind _ = some (none, e) at run
  obtain ⟨⟨b, d⟩, -, run⟩ := Option.bind_eq_some_iff.mp run
  exact stops b d e run

theorem given {a : α} : StopsAt (pure (some a)) c place := by
  rintro d ⟨⟩

end StopsAt

/-- The stretches of a heredoc end before a closing line. -/
theorem heredocPart_stopsAt (marker : List Char) (expression : Reader Expr) (c : Cursor) :
    StopsAt (Reader.heredocPart marker expression) c fun d => Closing marker d.rest := by
  refine StopsAt.get ?_
  dsimp only
  split
  · rintro d ⟨⟩
  · exact .after fun _ _ => .after fun _ _ => .given
  · exact .after fun _ _ => .after fun _ _ => .given
  · rename_i text dollar percent
    split
    · split
      · exact .after fun _ _ => .given
      · split
        · rename_i short _ tail ends
          have shared : Reader.sharedLength marker (c.rest.dropWhile isBlank) = marker.length :=
            Nat.le_antisymm (sharedLength_le _ _) (Nat.le_of_not_lt short)
          rw [shared] at ends
          rintro d ⟨⟩
          obtain ⟨rest, split, -⟩ := takeWhile_split (fun c => isBlank c && c != '\n')
            ((c.rest.dropWhile isBlank).drop marker.length)
          rw [drop_takeWhile split] at ends
          refine ⟨_, tail, ends ▸ split, fun e member => ?_⟩
          have blank := List.mem_takeWhile_imp member
          simpa using blank
        · exact .after fun _ _ => .given
    · exact .after fun _ _ => .given

/-- A cursor in a heredoc, which did not read any token since its start. -/
structure Opened (source : List Char) (braces : Nat) (around : List Mode) (start c : Cursor) :
    Prop where
  met : Met source braces around start ∨ before? source start.position = some '<'
  signs : ∃ rest, start.rest = '<' :: '<' :: rest
  tokens : c.tokens = start.tokens
  advances : Advances start c

theorem Opened.take {start : Cursor} (opened : Opened source braces around start c) (count : Nat) :
    Opened source braces around start ⟨c.position + count, c.rest.drop count, c.tokens⟩ :=
  ⟨opened.met, opened.signs, opened.tokens, opened.advances.trans (.take c count)⟩

/-- A heredoc up to the line feed after its marker. -/
theorem Opened.clear {start : Cursor} {inside : List Token}
    (opened : Opened source braces around start c) (ends : AtLineEnd c.rest)
    (regular : (Token.heredoc ⟨start.position,
      start.rest.take (c.position - start.position)⟩ inside).Regular source) :
    Clear source braces around { c with tokens := .heredoc ⟨start.position,
      start.rest.take (c.position - start.position)⟩ inside :: c.tokens } := by
  obtain ⟨spaces, rest, split, blank⟩ := ends
  obtain ⟨separate, parts, shape, text⟩ := regular
  have met : Met source braces around start := opened.met.resolve_right separate
  have whole := List.take_append_drop (c.position - start.position) start.rest
  rw [← opened.advances.rest, split] at whole
  have stop : start.position + (start.rest.take (c.position - start.position)).length =
      c.position := by
    have left := congrArg List.length (opened.advances.rest.symm.trans split)
    have passed := opened.advances.position
    rw [List.length_drop, List.length_append, List.length_cons] at left
    rw [List.length_take]
    omega
  generalize start.rest.take (c.position - start.position) = read at *
  change read = parts.text at text
  subst text
  obtain ⟨signs, first⟩ := opened.signs
  have fresh := met.ready.fresh first rfl (by decide)
  rw [← first, ← whole] at fresh
  obtain ⟨previous, scanned⟩ := scans_heredoc shape met.mode fresh blank
  obtain ⟨code, state⟩ := met.toInCode.forward whole.symm scanned met.mode met.around
  have left : source.drop (start.position + parts.text.length) = spaces ++ '\n' :: rest :=
    code.tracks.placed.symm
  have crossed : (Token.heredoc ⟨start.position, parts.text⟩ inside).Crossed source := by
    have mode := congrArg State.mode state
    have modes := congrArg State.around state
    have phase := congrArg State.phase state
    exact ⟨⟨⟨braces, met.mode⟩, (fresh _ _ (whole.trans first)).1, mode, modes⟩, phase, spaces,
      rest, left, blank⟩
  have spans : parts.text <+: source.drop start.position := met.tracks.placed ▸ ⟨_, whole⟩
  have tracks : Tracks source ⟨start.position + parts.text.length, spaces ++ '\n' :: rest,
      .heredoc ⟨start.position, parts.text⟩ inside :: start.tokens⟩ :=
    code.tracks.keep rfl spans (Nat.le_refl _) met.tracks.numbersBefore crossed
  have filled : parts.text ≠ [] := by simp [HeredocParts.text]
  have clear := Ready.clear parts.text met.tracks whole.symm filled (last_of_regular shape)
    ⟨⟨tracks, code.mode, code.around⟩,
      .inr ⟨congrArg State.phase state, spaces, rest, rfl, fun d member => (blank d member).1⟩⟩
  rw [stop, ← split, ← opened.tokens] at clear
  exact clear

namespace Keeps

variable {expression : Reader Expr} {P Q : Cursor → Prop}

theorem apart {α : Type} {reader : Reader α} {after : α → Cursor → Prop}
    (keeps : Keeps source reader P after) {ended : α × List Token → Cursor → Prop}
    (holds : ∀ c a d, Q c → reader { c with tokens := [] } = some (a, d) →
      Advances c { d with tokens := c.tokens } →
        ended (a, d.tokens.reverse) { d with tokens := c.tokens }) :
    Keeps source (Reader.apart reader) Q ended := by
  intro c result e run
  change (reader { c with tokens := [] }).bind _ = some (result, e) at run
  obtain ⟨⟨a, d⟩, taken, run⟩ := Option.bind_eq_some_iff.mp run
  cases run
  have moved := (keeps _ _ _ taken).1
  have advances : Advances c { d with tokens := c.tokens } :=
    ⟨List.suffix_rfl, moved.position, moved.rest⟩
  exact ⟨advances, fun _ here => holds c a d here taken advances⟩

section Inside

variable (inner : ∀ braces around, Keeps source expression (Clear source braces around)
  fun _ => Clear source braces around)

include inner

/-- The stretches of a heredoc go forward. -/
theorem heredocPart (marker : List Char) :
    Keeps source (Reader.heredocPart marker expression) (fun _ => False) fun _ _ => False := by
  have moved (count : Nat) : Keeps source (Reader.take count) (fun _ => False) fun _ _ => False :=
    take fun _ never => never
  have template (sign : Char) (template : isTemplateSign sign = true) (after : List Char) :
      Keeps source (Reader.signed expression sign after) (fun _ => False) fun _ _ => False :=
    (@signed source 0 [] expression inner sign template after 0 []).moves
  have given {α : Type} {a : α} : Keeps source (Pure.pure a) (fun _ => False) fun _ _ => False :=
    pure fun _ never => never
  refine bind get fun here => ?_
  refine Keeps.pre (P := fun _ => False) ?_ fun _ there => there.2
  dsimp only
  split
  · exact failure
  · exact bind (moved _) fun _ => bind (template _ rfl _) fun _ => given
  · exact bind (moved _) fun _ => bind (template _ rfl _) fun _ => given
  · refine ite (fun _ => ?_) fun _ => bind (moved _) fun _ => given
    refine ite (fun _ => bind (moved _) fun _ => given) fun _ => ?_
    split
    · exact given
    · exact bind (moved _) fun _ => given

/-- A heredoc from its opening signs on. -/
theorem heredoc (bound : Nat) :
    Keeps source (Reader.heredoc bound expression)
      (fun c => (Met source braces around c ∨ before? source c.position = some '<') ∧
        ∃ rest, c.rest = '<' :: '<' :: rest)
      fun _ => Clear source braces around := by
  unfold Reader.heredoc
  refine bind get fun start => ?_
  dsimp only
  have passed (count : Nat) : Keeps source (Reader.take count) (Opened source braces around start)
      fun _ => Opened source braces around start :=
    take fun _ opened => opened.take count
  refine bind ((passed _).pre ?_) fun _ => bind get fun _ => bind ((passed _).pre ?_) fun _ => ?_
  · rintro c ⟨rfl, met, signs⟩
    exact ⟨met, signs, rfl, .refl _⟩
  · exact fun _ there => there.2
  refine bind get fun there => ?_
  generalize there.rest.takeWhile Reader.isMarkerChar = marker
  refine ite (fun _ => never) fun _ => ?_
  refine bind ((passed _).pre fun _ here => here.2) fun _ => bind get fun begun => ?_
  have stretches : Keeps source
      (Reader.apart (Reading.repeated bound (Reader.heredocPart marker expression)))
      (fun c => begun = c ∧ Opened source braces around start c)
      fun _ c => Opened source braces around start c ∧ Closing marker c.rest := by
    have moved : Keeps source (Reading.repeated bound (Reader.heredocPart marker expression))
        (fun _ => False) fun _ _ => False :=
      loop ((heredocPart inner marker).post fun _ _ never => never.elim) bound
    refine apart moved fun c list d ⟨_, opened⟩ run advances => ?_
    obtain ⟨last, stops⟩ := repeated_last run
    exact ⟨⟨opened.met, opened.signs, opened.tokens, opened.advances.trans advances⟩,
      heredocPart_stopsAt marker expression last d stops⟩
  refine bind stretches fun read => bind get fun closing => ?_
  have blanks : Keeps source (Reader.take (closing.rest.takeWhile isBlank).length)
      (fun c => closing = c ∧ Opened source braces around start c ∧ Closing marker c.rest)
      fun _ c => Opened source braces around start c ∧
        AtLineEnd (c.rest.drop marker.length) := by
    refine take fun c ⟨same, opened, ends⟩ => ?_
    subst same
    refine ⟨opened.take _, ?_⟩
    rwa [drop_takeWhile List.takeWhile_append_dropWhile.symm]
  have marked : Keeps source (Reader.take marker.length)
      (fun c => Opened source braces around start c ∧ AtLineEnd (c.rest.drop marker.length))
      fun _ c => Opened source braces around start c ∧ AtLineEnd c.rest :=
    take fun c ⟨opened, ends⟩ => ⟨opened.take _, ends⟩
  refine bind blanks fun _ => bind sliceFrom fun body => ?_
  refine bind (marked.pre fun _ there => there.2) fun _ => bind sliceFrom fun slice => ?_
  have kept : Keeps source (Reader.keep (.heredoc slice read.2))
      (fun c => slice = ⟨start.position, start.rest.take (c.position - start.position)⟩ ∧
        Opened source braces around start c ∧ AtLineEnd c.rest)
      fun _ => Clear source braces around := by
    refine keep fun c ⟨same, opened, ends⟩ regular => ?_
    subst same
    exact opened.clear ends regular
  refine bind kept fun _ => ite (fun _ => pure fun _ clear => clear) fun _ => ?_
  exact ite (fun _ => pure fun _ clear => clear) fun _ => failure

end Inside

end Keeps

end TerraDoc.Hcl
