import TerraDoc.Proofs.FileTracking
import TerraDoc.Proofs.GrammarMirror

namespace TerraDoc.Hcl

namespace Mirrors

variable {ι : Type} {room most : Nat} {c : Cursor}

/-- The next label of a block. -/
theorem label (bound : Nat) {bound' : Nat} (enough : most ≤ bound' + 1) :
    Mirrors LevelAhead LevelAhead (fun found => found.elim 0 fun _ => 1) most (Reader.label bound)
      (fun _ : ι => Reader.label bound') (Option.Rel fun a b => a.stripped = b.stripped) c := by
  refine mark.bindSame fun start d run => ⟨fun _ b level => ?_, ?_⟩
  · generalize start.rest = here at level
    generalize b.rest = there at level
    cases level with
    | nil => rfl
    | cons d => split <;> (split <;> simp_all)
  · obtain ⟨rfl, solid⟩ := Reader.mark_run run
    split
    · rename_i rest split
      refine piece none [] [] rfl rfl (by simp) (Nat.le_refl 0) (fun left ahead => ?_)
        fun left _ _ p tokens => ⟨none, tokens, rfl, .none⟩
      change LevelAhead start.rest left at ahead
      rw [split] at ahead ⊢
      obtain ⟨after, rfl, later⟩ := ahead.alongside.of_cons (by decide)
      exact .cons '{' later
    · refine (quotedLabel bound enough ‹_›).bind fun slice _ _ => pure (fun i => .some ?_) (by simp)
      exact congrArg (fun text => Label.quoted ⟨0, text⟩) i.2.2
    · refine ((name LevelAhead.sound).level LevelAhead.sound solid fun _ => Nat.le_refl 1).bind
        fun slice _ _ => pure (fun i => .some ?_) (by simp)
      exact congrArg (fun text => Label.name ⟨0, text⟩) i.2.2

/-- An attribute or a block. -/
theorem item {inner inner' : Reader (List Item)}
    (within : ∀ {κ : Type} fewer c, fewer ≤ room →
      Mirrors LevelAhead LevelAhead (fun _ => 0) fewer inner (fun _ : κ => inner')
        (List.Forall₂ fun a b => a.stripped = b.stripped) c)
    (le : most ≤ room + 1) (bound : Nat) {bound' : Nat} (enough : most ≤ bound' + 1) :
    Mirrors LevelAhead LevelAhead (fun _ => 1) most (Reader.item bound inner)
      (fun _ : ι => Reader.item bound' inner') (fun a b => a.stripped = b.stripped) c := by
  refine (name LevelAhead.sound).bind fun kind _ _ => ?_
  refine (optional (by simp) (by simp)).bindEq fun equals _ _ => ite (fun _ => ?_) fun _ => ?_
  · refine (expression bound (by omega)).bind fun value _ _ => pure (fun i => ?_) (by simp)
    exact congrArg₂ (fun text value => Item.attr ⟨0, text⟩ value) i.1.2.2 i.2.2
  · refine (repeated (fun fewer c few => label bound (by omega)) bound (by omega)).bind
      fun labels _ _ => ?_
    refine (symbol LevelAhead.sound (by simp) (by simp)).andThen fun _ _ _ => ?_
    refine (within _ _ (by omega)).bind fun body _ _ => ?_
    refine (symbol LevelAhead.sound (by simp) (by simp)).andThen fun _ _ _ =>
      pure (fun i => ?_) (by simp)
    have kinds : kind.unplaced = i.1.1.2.1.unplaced := congrArg (Slice.mk 0) i.1.1.2.2
    have labelled := forall₂_map_eq.mp i.1.2.2
    have bodies := forall₂_map_eq.mp i.2.2
    rw [Item.stripped, Item.stripped, strippedBody_eq, strippedBody_eq, kinds, labelled, bodies]

/-- Attributes and blocks. -/
theorem body (bound : Nat) {bound' : Nat} (enough : most + 1 ≤ bound') :
    Mirrors LevelAhead LevelAhead (fun _ => 0) most (Reader.body bound)
      (fun _ : ι => Reader.body bound') (List.Forall₂ fun a b => a.stripped = b.stripped) c := by
  induction bound generalizing ι bound' most c with
  | zero => exact failure
  | succ bound ih =>
    have main (bound' : Nat) (enough : most ≤ bound' + 1) :
        Mirrors LevelAhead LevelAhead (fun _ => 0) most (Reader.body (bound + 1))
          (fun _ : ι => Reader.body (bound' + 1 + 1))
          (List.Forall₂ fun a b => a.stripped = b.stripped) c := by
      refine repeated (fun fewer c few => ?_) bound enough
      refine ahead.bindSame fun text _ _ => ⟨fun _ b level => ?_, ?_⟩
      · cases level with
        | nil => rfl
        | cons d => split <;> (split <;> simp_all)
      · split
        · exact pure (fun _ => .none) rfl
        · exact pure (fun _ => .none) rfl
        · refine (item (fun fewer c few => ih (Nat.succ_le_succ few)) (Nat.le_trans few enough) bound
            (by omega)).bind fun item _ _ => pure (fun i => .some i.2.2) (Nat.sub_self 1)
    cases bound' with
    | zero => exact absurd enough (Nat.not_succ_le_zero most)
    | succ bound' =>
      cases bound' with
      | zero => exact (main 0 (by omega)).vacuous fun _ => by omega
      | succ bound' => exact main bound' (Nat.le_of_succ_le_succ enough)

/-- What a file holds. -/
theorem content (bound : Nat) {bound' : Nat} (enough : most + 1 ≤ bound') :
    Mirrors LevelAhead LevelAhead (fun _ => 0) most (Reader.content bound)
      (fun _ : ι => Reader.content bound') (fun a b => a.stripped = b.stripped) c := by
  refine ahead.bindSame fun text d run => ⟨fun _ b level => ?_, ?_⟩
  · cases level with
    | nil => rfl
    | cons d => split <;> (split <;> simp_all)
  · obtain ⟨rfl, leads⟩ := Reader.ahead_run run
    split
    · rename_i rest
      refine mark.andThen fun _ start marked => ?_
      have split := (Reader.mark_leads marked).eq leads
      refine (object (fun fewer c few => expression bound few) (by omega) bound (by omega)
        split).bind fun e _ _ => ?_
      cases e
      case object slice elements =>
        refine congr (fun i => Pure.pure (.object i.2.1)) ?_ fun i => ?_
        · exact pure (fun i => congrArg Content.object i.2.2) (Nat.zero_sub _)
        · obtain ⟨i, e', like⟩ := i
          cases e' <;> first | rfl | cases like
      all_goals exact failure
    · refine (body bound enough).bind fun items _ _ => pure (fun i => ?_) rfl
      have bodies := forall₂_map_eq.mp i.2.2
      rw [Content.stripped, Content.stripped, strippedBody_eq, strippedBody_eq, bodies]

end Mirrors

theorem Passed.eq {c d : Cursor} {other left : List Char} (first : Passed c d other)
    (second : Passed c d left) : other = left := by
  obtain ⟨text, tokens, split, -, kept, spacing⟩ := first
  obtain ⟨text', tokens', split', -, kept', spacing'⟩ := second
  obtain rfl := List.append_cancel_right (split.symm.trans split')
  obtain rfl := List.reverse_injective (List.append_cancel_right (kept.symm.trans kept'))
  rw [← spacing.spaced_eq, spacing'.spaced_eq]

theorem Spacing.mem {p : Nat} {text other : List Char} {tokens : List Token}
    (spacing : Spacing p text tokens other) {c : Char} (member : c ∈ other) : c ∈ text ∨ c = ' ' := by
  induction spacing with
  | nil => cases member
  | keep d later ih =>
    rcases List.mem_cons.mp member with rfl | member
    · exact .inl List.mem_cons_self
    · exact (ih member).imp_left (List.mem_cons_of_mem _)
  | comment opens later ih =>
    rcases List.mem_cons.mp member with rfl | member
    · exact .inr rfl
    · exact (ih member).imp_left (List.mem_append_right _)
  | heredoc within later first second =>
    rcases List.mem_append.mp member with member | member
    · exact (first member).imp_left (List.mem_append_left _)
    · exact (second member).imp_left (List.mem_append_right _)
  | token plain later ih => exact ih member

theorem origin_split (source : List Char) :
    ∃ mark : List Char, source = mark ++ (origin source).rest ∧
      (origin source).position = mark.length ∧ (origin source).tokens = [] ∧
      ∀ other, Alongside (origin source).rest other →
        origin (mark ++ other) = ⟨mark.length, other, []⟩ := by
  by_cases marked : ∃ rest, source = '\ufeff' :: rest
  · obtain ⟨rest, rfl⟩ := marked
    exact ⟨['\ufeff'], rfl, rfl, rfl, fun _ _ => rfl⟩
  · have plain {text : List Char} (unmarked : ¬ ∃ rest, text = '\ufeff' :: rest) :
        origin text = ⟨0, text, []⟩ := by
      unfold origin
      split
      · exact absurd ⟨_, rfl⟩ unmarked
      · rfl
    rw [plain marked]
    refine ⟨[], rfl, rfl, rfl, fun other alongside => plain ?_⟩
    rintro ⟨rest, rfl⟩
    obtain ⟨rest, rfl, -⟩ := alongside.to_cons (by decide)
    exact marked ⟨_, rfl⟩

theorem readFile?_of_run {source : List Char} {content : Content} {c : Cursor}
    (null : source.contains '\x00' = false)
    (run : (do let content ← Reader.content (source.length + 2); Reader.skipGap; return content :
      Reader Content) (origin source) = some (content, c)) (ended : c.rest = []) :
    readFile? source = some ⟨source, content, c.tokens.reverse⟩ := by
  obtain ⟨content', d, read, skipped⟩ := Reader.bind_run run
  obtain ⟨⟨⟩, e, skips, given⟩ := Reader.bind_run skipped
  cases given
  have body : readFile? source = ((Reader.content (source.length + 2) (origin source)).bind fun x =>
      (Reader.skipGap x.2).bind fun y =>
        if y.2.rest.isEmpty then some ⟨source, x.1, y.2.tokens.reverse⟩ else none) := by
    rw [readFile?, if_neg (by rw [null]; exact Bool.false_ne_true)]
    rfl
  rw [body, read, Option.bind_some, skips, Option.bind_some, ended]
  rfl

/-- A file is read where its comments are spaces, and holds the same. -/
theorem readFile?_spaced {source : List Char} {file : File} (read : readFile? source = some file) :
    ∃ other file', Spacing 0 source file.tokens other ∧ readFile? other = some file' ∧
      file.content.stripped = file'.content.stripped := by
  obtain ⟨content, c, ran, ended, rfl⟩ := readFile?_cases read
  obtain ⟨mark, split, position, unread, image⟩ := origin_split source
  have mirrors (most bound' : Nat) (enough : most + 1 ≤ bound') :
      Mirrors LevelAhead Level (fun _ => 0) most
        (do let content ← Reader.content (source.length + 2); Reader.skipGap; return content)
        (fun _ : Unit =>
          do let content ← Reader.content bound'; Reader.skipGap; return content)
        (fun a b => a.stripped = b.stripped) (origin source) :=
    (Mirrors.content _ enough).bind fun _ _ _ => Mirrors.skipGap.andThen fun _ _ _ =>
      .pure (fun i => i.2.2) rfl
  have level : Level c.rest [] := by
    rw [ended]
    exact .nil
  obtain ⟨other, passed, -⟩ := mirrors 0 1 (Nat.le_refl 1) _ _ ran [] level
  obtain ⟨same, passed', -, ahead, reads⟩ := mirrors (other.length + 1)
    ((mark ++ other).length + 2) (by rw [List.length_append]; omega) _ _ ran [] level
  obtain rfl := passed.eq passed'
  rw [List.append_nil] at ahead reads
  obtain ⟨content', tokens', run, like⟩ := reads (Nat.lt_succ_self _) () mark.length []
  rw [← image other ahead.alongside] at run
  obtain ⟨text, tokens, whole, -, kept, spacing⟩ := passed
  rw [ended, List.append_nil] at whole
  rw [unread, List.append_nil] at kept
  rw [position] at spacing
  have spaces : Spacing 0 source c.tokens.reverse (mark ++ other) := by
    have marks : Spacing 0 mark [] mark := .same 0 mark (by simp)
    rw [split, whole, kept, List.reverse_reverse]
    exact marks.append (by rwa [Nat.zero_add])
  have null : (mark ++ other).contains '\x00' = false := by
    have clear : '\x00' ∉ source := by
      intro member
      rw [readFile?, if_pos (List.contains_iff_mem.mpr member)] at read
      cases read
    refine Bool.eq_false_iff.mpr fun found => ?_
    rcases spaces.mem (List.contains_iff_mem.mp found) with member | space
    · exact clear member
    · cases space
  exact ⟨mark ++ other, _, spaces, readFile?_of_run null run rfl, like⟩

end TerraDoc.Hcl
