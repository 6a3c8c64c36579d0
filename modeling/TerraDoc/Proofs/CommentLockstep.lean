import TerraDoc.Proofs.CommentScan
import TerraDoc.Proofs.ExponentInsertion
import TerraDoc.Proofs.HeredocScan

namespace TerraDoc.Hcl

open Exponent

/-- With a space in place of every comment in it a heredoc is still regular: no line of its body
consists of the marker and white space. -/
def Token.Steady (token : Token) : Prop :=
  ∀ slice inside, token = .heredoc slice inside → ∃ parts : HeredocParts, parts.Regular ∧
    spaced slice.start (commentsOf inside) slice.text = parts.text

/-- A file whose heredocs close where they did when comments become spaces. -/
def File.Steady (file : File) : Prop :=
  ∀ token ∈ file.tokens, token.Steady

/-- Tokens that the scan of a source goes past, with comments and without. -/
structure Even (source : List Char) (tokens : List Token) : Prop where
  recorded : ∀ token ∈ tokens, Recorded source token
  regular : ∀ token ∈ tokens, token.Regular source
  steady : ∀ token ∈ tokens, token.Steady

theorem Even.of_subset {source : List Char} {tokens others : List Token} (even : Even source tokens)
    (fewer : others ⊆ tokens) : Even source others :=
  ⟨fun token member => even.recorded token (fewer member),
    fun token member => even.regular token (fewer member),
    fun token member => even.steady token (fewer member)⟩

variable {source text other short : List Char} {tokens : List Token} {p q : Nat} {s s' t : State}
  {c : Char} {move : Nat → Nat}

theorem Even.signs {slice : Slice} {inside : List Token} (even : Even source tokens)
    (member : .heredoc slice inside ∈ tokens) : ∃ rest, slice.text = '<' :: rest := by
  obtain ⟨-, parts, -, text⟩ := even.regular _ member
  exact ⟨_, text⟩

/-- The scan is inside a line of a heredoc. -/
def InLine (s : State) : Prop :=
  (∃ marker, s.phase = .heredoc marker false) ∨ s.phase = .lastHeredocLine

theorem InLine.not_settled (within : InLine s) : ¬ s.phase.isSettled = true := by
  rcases within with ⟨marker, phase⟩ | phase <;> simp [phase, Phase.isSettled]

theorem inLine_of_heredoc {c : Char} {marker : List Char} {fresh : Bool}
    (phase : s.phase = .heredoc marker fresh) (inside : c ≠ '\n') (text : List Char) :
    InLine (step s c text).1 := by
  simp only [InLine, step, phaseStep, phase, beq_false_of_ne inside, if_neg inside]
  split
  · exact .inr rfl
  · exact .inl ⟨marker, rfl⟩

theorem InLine.step {c : Char} (within : InLine s) (inside : c ≠ '\n') (text : List Char) :
    InLine (step s c text).1 := by
  rcases within with ⟨marker, phase⟩ | phase
  · exact inLine_of_heredoc phase inside text
  · exact .inr (by simp [Exponent.step, phaseStep, phase, inside, State.goOn])

namespace Spacing

/-- A character with which neither a comment nor a heredoc begins. -/
theorem uncons {c : Char} (spacing : Spacing p (c :: text) tokens other)
    (even : Even source tokens) (plain : c ≠ '#' ∧ c ≠ '/' ∧ c ≠ '<') :
    ∃ more left, other = c :: left ∧ Spacing (p + 1) text more left ∧ more <:+ tokens ∧
      commentsOf more = commentsOf tokens := by
  generalize whole : c :: text = all at spacing
  induction spacing with
  | nil => cases whole
  | keep d later =>
    cases whole
    exact ⟨_, _, rfl, later, List.suffix_rfl, rfl⟩
  | @comment slice _ _ _ opens =>
    obtain ⟨d, rest, shape, sign⟩ := opens.head
    rw [shape] at whole
    obtain ⟨rfl, -⟩ := List.cons.inj whole
    exact (sign.elim plain.1 plain.2.1).elim
  | heredoc =>
    obtain ⟨rest, shape⟩ := even.signs List.mem_cons_self
    rw [shape] at whole
    exact absurd (List.cons.inj whole).1 plain.2.2
  | @token _ _ _ _ token simple later ih =>
    obtain ⟨more, left, split, after, suffix, same⟩ :=
      ih (even.of_subset (List.subset_cons_self _ _)) whole
    refine ⟨more, left, split, after, suffix.trans (List.suffix_cons _ _), ?_⟩
    rw [same, commentsOf, Token.comments_of_isPlain simple, List.nil_append]

theorem comment_of_head (spacing : Spacing p text tokens other) (even : Even source tokens)
    (differ : text.head? ≠ other.head?) :
    ∃ slice, Token.comment slice ∈ tokens ∧ slice.start = p := by
  induction spacing with
  | nil => exact absurd rfl differ
  | keep => exact absurd rfl differ
  | @comment slice => exact ⟨slice, List.mem_cons_self, rfl⟩
  | @heredoc slice text body other inside tokens within later =>
    obtain ⟨rest, shape⟩ := even.signs List.mem_cons_self
    have along := within.alongside .nil
    rw [shape] at along differ
    obtain ⟨after, same, -⟩ := Alongside.of_cons along (by decide)
    rw [List.append_nil] at same
    rw [same] at differ
    exact absurd rfl differ
  | token _ _ ih =>
    obtain ⟨slice, member, start⟩ := ih (even.of_subset (List.subset_cons_self _ _)) differ
    exact ⟨slice, List.mem_cons_of_mem _ member, start⟩

/-- In the rest of a line of a heredoc no comment begins. -/
theorem line (spacing : Spacing p text tokens other) (even : Even source tokens)
    (placed : source.drop p = text) (within : InLine (stateAt source p)) :
    text.takeWhile (· != '\n') = other.takeWhile (· != '\n') := by
  induction spacing with
  | nil => rfl
  | @keep p text other tokens c later ih =>
    by_cases feed : c = '\n'
    · subst feed
      rfl
    · have goesOn := within.step feed text
      rw [← stateAt_succ placed] at goesOn
      rw [List.takeWhile_cons_of_pos (by simpa using feed),
        List.takeWhile_cons_of_pos (by simpa using feed),
        ih even (drop_of_split [c] placed) goesOn]
  | comment =>
    obtain ⟨crossed, -⟩ := (even.recorded _ List.mem_cons_self).crossed
    exact absurd crossed.settled within.not_settled
  | heredoc =>
    obtain ⟨crossed, -⟩ := (even.recorded _ List.mem_cons_self).crossed
    exact absurd crossed.settled within.not_settled
  | token _ _ ih => exact ih (even.of_subset (List.subset_cons_self _ _)) placed within

/-- A character that stays is taken for the same with comments and without. -/
theorem step_eq {c : Char} (spacing : Spacing (p + 1) text tokens other)
    (even : Even source tokens) (placed : source.drop p = c :: text) :
    step (stateAt source p) c text = step (stateAt source p) c other := by
  have left : source.drop (p + 1) = text := drop_of_split [c] placed
  have along := spacing.alongside .nil
  rw [List.append_nil, List.append_nil] at along
  have same := along.phaseStep_eq (s := stateAt source p) (c := c) (fun differ => ?_)
    fun marker phase => ?_
  · rw [step, step, same]
  · obtain ⟨slice, member, start⟩ := spacing.comment_of_head even differ
    obtain ⟨crossed, -⟩ := (even.recorded _ member).crossed
    have settled := crossed.settled
    rw [start, stateAt_succ placed] at settled
    exact settled
  · by_cases feed : c = '\n'
    · subst feed
      rfl
    · have goesOn := inLine_of_heredoc phase feed text
      rw [← stateAt_succ placed] at goesOn
      rw [List.takeWhile_cons_of_pos (by simpa using feed),
        List.takeWhile_cons_of_pos (by simpa using feed), spacing.line even left goesOn]

end Spacing

/-- Where the positions of a normal source are in the source before normalisation, from a position
on at which the scan is in some state. -/
def Moves (move : Nat → Nat) (s : State) (p q : Nat) (short : List Char) : Prop :=
  ∀ x, p ≤ x → move x = q + (x - p) - 2 * (insertionsFrom s p short).countP (· < x)

/-- The scan goes in step through a text as it is before normalisation and as it is after it, with a
space in place of every comment in both. -/
structure Restored (s : State) (move : Nat → Nat) (q : Nat) (tokens : List Token)
    (short other : List Char) : Prop where
  elides : Elides s (spaced q ((commentsOf tokens).map (Slice.moved move)) short) other
  inOrder : InOrder q (q + short.length) ((commentsOf tokens).map (Slice.moved move))
  stand : Stand q ((commentsOf tokens).map (Slice.moved move)) short

namespace Moves

theorem piece {rest : List Char} {n : Nat} (moves : Moves move s p q short)
    (same : insertionsFrom s p short = insertionsFrom t (p + n) rest) :
    Moves move t (p + n) (q + n) rest := by
  intro x after
  rw [moves x (by omega), same]
  congr 1
  omega

theorem point {rest : List Char} (moves : Moves move s p q short)
    (added : insertionsFrom s p short = p :: insertionsFrom t (p + 3) rest) :
    Moves move t (p + 3) (q + 1) rest := by
  intro x after
  have before : p < x := by omega
  rw [moves x (by omega), added, List.countP_cons_of_pos (by simpa using before)]
  omega

theorem constant {rest : List Char} {n : Nat} (moves : Moves move s p q short)
    (same : insertionsFrom s p short = insertionsFrom t (p + n) rest) {i : Nat} (after : p ≤ i)
    (before : i ≤ p + n) : move i = q + (i - p) := by
  rw [moves i after, same, countP_insertionsFrom before, Nat.mul_zero, Nat.sub_zero]

end Moves

namespace Restored

theorem congr {others : List Token} (rest : Restored s move q tokens short other)
    (same : commentsOf tokens = commentsOf others) : Restored s move q others short other :=
  ⟨same ▸ rest.elides, same ▸ rest.inOrder, same ▸ rest.stand⟩

theorem cons (rest : Restored (step s c other).1 move (q + 1) tokens short other)
    (unmarked : Unmarked s c other) (opened : ¬ Unopened s c other) :
    Restored s move q tokens (c :: short) (c :: other) := by
  refine ⟨?_, ?_, rest.stand.append_left [c] rest.inOrder⟩
  · rw [spaced_cons c rest.inOrder]
    exact .keep other (.inr rfl) unmarked (.inr opened) rest.elides
  · rw [List.length_cons, Nat.add_comm short.length, ← Nat.add_assoc]
    exact rest.inOrder.mono (Nat.le_succ q)

theorem insert (rest : Restored (step s c other).1 move (q + 1) tokens short other)
    (digits : s.phase = .digits false) (mark : isMark c = true)
    (follows : powerFollows other = true) :
    Restored s move q tokens (c :: short) ('.' :: '0' :: c :: other) := by
  refine ⟨?_, ?_, rest.stand.append_left [c] rest.inOrder⟩
  · rw [spaced_cons c rest.inOrder]
    exact .insert other (.inr rfl) digits mark follows rest.elides
  · rw [List.length_cons, Nat.add_comm short.length, ← Nat.add_assoc]
    exact rest.inOrder.mono (Nat.le_succ q)

theorem comment {slice : Slice} {braces : Nat}
    (rest : Restored { s with phase := .start, previous := ' ' } move (q + slice.text.length) tokens
      short other)
    (code : s.mode = .code braces) (settled : s.phase.isSettled = true)
    (opens : OpensComment slice.text) (place : move slice.start = q) :
    Restored s move q (.comment slice :: tokens) (slice.text ++ short) (' ' :: other) := by
  subst place
  have scanned := @scans_inert s braces ' ' other code
    (fresh_of_settled settled (by decide) (by decide)) (by decide)
  refine ⟨?_, ⟨Nat.le_refl _, ?_⟩, ?_⟩
  · have shape := spaced_comment (slice.moved move) ((commentsOf tokens).map (Slice.moved move)) short
    rw [commentsOf, Token.comments, List.singleton_append, List.map_cons]
    refine shape ▸ ?_
    exact Elides.of_scans scanned rest.elides
  · rw [List.length_append, ← Nat.add_assoc]
    exact rest.inOrder
  · have here := @Stand.comment (slice.moved move) opens short
    exact here.append (rest.stand.append_left slice.text rest.inOrder)

theorem heredoc {slice : Slice} {inside : List Token} {body : List Char}
    (rest : Restored t move (q + slice.text.length) tokens short other)
    (scanned : Scans Silent s body other t) (within : Spacing slice.start slice.text inside body)
    (place : ∀ i, slice.start ≤ i → i ≤ slice.stop → move i = q + (i - slice.start)) :
    Restored s move q (.heredoc slice inside :: tokens) (slice.text ++ short) (body ++ other) := by
  have length : slice.stop - slice.start = slice.text.length := Nat.add_sub_cancel_left _ _
  have ended : slice.start ≤ slice.stop := Nat.le_add_right _ _
  have first : move slice.start = q := by rw [place _ (Nat.le_refl _) ended, Nat.sub_self]; rfl
  have last : move slice.stop = q + slice.text.length := by
    rw [place _ ended (Nat.le_refl _), length]
  have constant (i : Nat) (after : slice.start ≤ i) (before : i ≤ slice.stop) :
      move i = move slice.start + (i - slice.start) := by
    rw [first, place i after before]
  have order : InOrder q (q + slice.text.length) ((commentsOf inside).map (Slice.moved move)) := by
    have moved := within.inOrder.moved constant
    rwa [first, show slice.start + slice.text.length = slice.stop from rfl, last] at moved
  have stands : Stand q ((commentsOf inside).map (Slice.moved move)) slice.text := by
    have moved := within.stand.moved within.inOrder constant
    rwa [first] at moved
  have replaced : spaced q ((commentsOf inside).map (Slice.moved move)) slice.text = body := by
    have moved := @spaced_moved slice.start _ slice.text _ move within.inOrder constant
    rwa [first, within.spaced_eq] at moved
  have parts : commentsOf (.heredoc slice inside :: tokens) =
      commentsOf inside ++ commentsOf tokens := rfl
  refine ⟨?_, ?_, ?_⟩
  all_goals rw [parts, List.map_append]
  · rw [spaced_append order rest.inOrder, replaced]
    exact Elides.of_scans scanned rest.elides
  · rw [List.length_append, ← Nat.add_assoc]
    exact order.append rest.inOrder
  · exact (stands.append_right short).append (rest.stand.append_left slice.text rest.inOrder)

end Restored

theorem Recorded.pointless {token : Token} (recorded : Recorded source token)
    (other : token.isNumber = false) (i : Nat) (start : token.slice.start ≤ i)
    (stop : i < token.slice.stop) : ¬ Occurs Point source i := by
  intro point
  rcases recorded.points i point with number | before | after
  · rw [other] at number
    cases number
  · omega
  · omega

/-- A normal source whose tokens are regular is scanned with spaces in place of comments as it is
scanned with them. -/
theorem Spacing.restored (opened : ∀ i, ¬ Occurs Unopened source i)
    (spacing : Spacing p text tokens other) (even : Even source tokens)
    (placed : source.drop p = text) (elides : Elides (stateAt source p) short text)
    (like : Like (stateAt source p) s' text) (moves : Moves move (stateAt source p) p q short) :
    Restored s' move q tokens short other := by
  -- a point and a zero are read in one step, so structural induction on the text does not do
  induction size : text.length + tokens.length using Nat.strong_induction_on generalizing
    p q text other short tokens s' with | _ size ih
  subst size
  cases spacing with
  | nil =>
    cases elides
    exact ⟨.nil s', Nat.le_refl _, .nil _ _⟩
  | @keep _ text other _ c later => 
    have left : source.drop (p + 1) = text := drop_of_split [c] placed
    have same := (like.step c text rfl other).trans (later.step_eq even placed).symm
    generalize whole : c :: text = all at elides
    cases elides with
    | nil => cases whole
    | @keep _ d short _ seen either unmarked silent after =>
      obtain ⟨rfl, rfl⟩ := List.cons.inj whole
      obtain ⟨inShort, inLong⟩ := step_eq_of_elides either silent after
      have state : stateAt source (p + 1) = (step (stateAt source p) c seen).1 := by
        rw [stateAt_succ placed, inLong]
      rw [inLong] at same
      have kept : (step (stateAt source p) c seen).2 = false := unmarked
      rw [← state] at after
      have rest : Restored (step s' c other).1 move (q + 1) tokens short other := by
        rw [same, ← state]
        refine ih _ (by simp) later even left after (.refl _ _) (moves.piece ?_) rfl
        simp [insertionsFrom, inShort, kept, state]
      refine rest.cons ?_ ?_
      · rw [Unmarked, same, kept]
      · rintro ⟨rfl, skips⟩
        rw [same, ← inLong] at skips
        exact opened p ⟨'<', text, placed, rfl, skips⟩
    | @insert _ d short long seen either digits mark follows after =>
      obtain ⟨rfl, rfl⟩ := List.cons.inj whole
      have plain : d ≠ '#' ∧ d ≠ '/' ∧ d ≠ '<' := by
        rcases isMark_cases mark with rfl | rfl <;> decide
      obtain ⟨more, _, rfl, zero, fewer, comments⟩ := later.uncons even (by decide)
      obtain ⟨most, left', rfl, last, fewest, comments'⟩ :=
        zero.uncons (even.of_subset fewer.subset) plain
      have shorter := (fewest.trans fewer).length_le
      obtain ⟨⟨-, inShort⟩, inLong, stepped⟩ :=
        step_bare_similar after.similar either digits mark follows
      have state : stateAt source (p + 3) = (step (stateAt source p) d long).1 :=
        (scans_insertion digits mark inLong).stateAt_eq placed
      have along := last.alongside .nil
      rw [List.append_nil, List.append_nil] at along
      have digits' := (like.phase (by rw [digits]; rfl)).trans digits
      have inLeft : powerFollows left' = true := along.powerFollows_eq ▸ inLong
      have here : (step s' d left').1 = stateAt source (p + 3) := by
        rw [state, step_bare digits' mark inLeft, step_bare digits mark inLong,
          along.signFollows_eq, State.mk.injEq]
        exact ⟨like.mode, like.around, rfl, rfl⟩
      rw [← stepped, ← state] at after
      have rest : Restored (step s' d left').1 move (q + 1) most short left' := by
        rw [here]
        refine ih _ (by simp; omega) last (even.of_subset (fewest.trans fewer).subset)
          (drop_of_split ['.', '0', d] placed) after (.refl _ _) (moves.point ?_) rfl
        have bare : (step (stateAt source p) d long).2 = true := by
          rw [step_bare digits mark inLong]
        simp [insertionsFrom, inShort, ← stepped, bare, ← state]
      exact (rest.insert digits' mark inLeft).congr (comments'.trans comments)
  | @comment slice text other tokens opens later =>
    have recorded := even.recorded _ List.mem_cons_self
    obtain ⟨crossed, left⟩ := recorded.crossed
    obtain ⟨braces, code⟩ := crossed.code
    obtain ⟨short, rfl, after, same⟩ := elides.split placed (recorded.pointless rfl)
    have stop : source.drop slice.stop = text := drop_of_split slice.text placed
    have state : ({ s' with phase := .start, previous := ' ' } : State) =
        { stateAt source slice.stop with phase := .start, previous := ' ' } := by
      rw [State.mk.injEq]
      exact ⟨like.mode.trans crossed.mode.symm, like.around.trans crossed.around.symm, rfl, rfl⟩
    have place := moves.constant same (Nat.le_refl _) (Nat.le_add_right _ _)
    rw [Nat.sub_self, Nat.add_zero] at place
    have phase := like.phase crossed.settled
    refine Restored.comment ?_ (like.mode.trans code) (phase ▸ crossed.settled) opens place
    rw [state]
    refine ih _ (by simp; omega) later (even.of_subset (List.subset_cons_self _ _)) stop after
      ?_ (moves.piece same) rfl
    exact stop ▸ Like.comment left (crossed.mode.trans code)
  | @heredoc slice text body other inside tokens within later =>
    have recorded := even.recorded _ List.mem_cons_self
    obtain ⟨crossed, closing, spaces, line, ends, blank⟩ := recorded.crossed
    obtain ⟨braces, code⟩ := crossed.code
    obtain ⟨short, rfl, after, same⟩ := elides.split placed (recorded.pointless rfl)
    have stop : source.drop slice.stop = text := drop_of_split slice.text placed
    obtain ⟨parts, regular, shape⟩ := even.steady _ List.mem_cons_self slice inside rfl
    rw [within.spaced_eq] at shape
    have along := later.alongside .nil
    rw [List.append_nil, List.append_nil, ← stop, ends] at along
    obtain ⟨_, split, along⟩ := along.of_append (blank_clear fun c member => (blank c member).1)
    obtain ⟨line', rfl, -⟩ := along.of_cons (by decide)
    subst shape split
    have settled : s'.phase.isSettled = true := like.phase crossed.settled ▸ crossed.settled
    obtain ⟨previous, scanned⟩ := scans_heredoc regular (like.mode.trans code)
      (fresh_of_settled settled (by decide) (by decide)) blank
    have state : ({ s' with phase := .lastHeredocLine, previous } : State) =
        { stateAt source slice.stop with previous } := by
      rw [State.mk.injEq]
      exact ⟨like.mode.trans crossed.mode.symm, like.around.trans crossed.around.symm,
        closing.symm, rfl⟩
    refine Restored.heredoc ?_ scanned within fun i => moves.constant same
    rw [state]
    exact ih _ (by simp; omega) later (even.of_subset (List.subset_cons_self _ _)) stop after
      (Like.heredoc closing) (moves.piece same) rfl
  | @token _ _ _ tokens token plain later =>
    have rest := ih _ (by simp) later (even.of_subset (List.subset_cons_self _ _)) placed
      elides like moves rfl
    refine rest.congr ?_
    rw [commentsOf, Token.comments_of_isPlain plain, List.nil_append]

end TerraDoc.Hcl
