import TerraDoc.Proofs.LinkTracking

namespace TerraDoc.Hcl

open Exponent

variable {source : List Char} {braces : Nat} {around : List Mode} {c : Cursor}

/-- A cursor from which neither a name nor a brace can be read. -/
structure Stuck (c : Cursor) : Prop where
  solid : Solid c.rest
  unnamed : name? c.rest = none
  other : ∃ d rest, c.rest = d :: rest ∧ d ≠ '{' ∧ d ≠ '}'

theorem Stuck.facing {text : List Char} (stuck : Stuck c) (facing : Facing text c) :
    ∃ d rest, text = d :: rest ∧ d ≠ '{' ∧ d ≠ '}' := by
  obtain ⟨d, skipped, rfl⟩ := facing
  rw [stuck.solid] at skipped
  cases skipped
  exact stuck.other

namespace Keeps

section Inside

variable {expression : Reader Expr}
  (inner : ∀ braces around, Keeps source expression (Clear source braces around)
    fun _ => Clear source braces around)

include inner

theorem term (bound : Nat) :
    Keeps source (Reader.term bound expression) (Clear source braces around)
      fun _ => Clear source braces around := by
  refine bind (mark gap_clear) fun start => ?_
  refine bind ((operand inner bound).pre fun c there => .inl ⟨there.2.1.ready, there.2.2⟩)
    fun first => bind (loop (link inner bound) bound) fun links => ite (fun _ => ?_) fun _ => ?_
  · exact pure fun _ clear => clear
  · exact bind sliceFrom fun _ => pure fun _ there => there.2

theorem expressionWith (bound : Nat) :
    Keeps source (Reader.expressionWith bound expression) (Clear source braces around)
      fun _ => Clear source braces around := by
  refine bind (mark gap_clear) fun start => ?_
  refine bind ((term inner bound).pre fun c there => ⟨there.2.1.ready, there.2.2⟩) fun first => ?_
  refine bind (optional_clear rfl (by simp)) fun conditional => ite (fun _ => ?_) fun _ => ?_
  · refine bind (inner _ _) fun _ => ?_
    refine bind ((sign_clear rfl (by simp)).pre fun _ clear => clear.1) fun _ => ?_
    refine bind (inner _ _) fun _ => ?_
    exact bind sliceFrom fun _ => pure fun _ there => there.2
  · exact pure fun _ clear => clear

end Inside

theorem expression (bound braces : Nat) (around : List Mode) :
    Keeps source (Reader.expression bound) (Clear source braces around)
      fun _ => Clear source braces around := by
  induction bound generalizing braces around with
  | zero => exact failure
  | succ bound ih => exact expressionWith ih bound

theorem label (bound : Nat) :
    Keeps source (Reader.label bound) (Clear source braces around)
      fun found => found.elim (Clear source braces around) fun _ => Clear source braces around := by
  refine bind (mark gap_clear) fun start => ?_
  split
  · exact pure fun _ there => ⟨there.2.1.ready, there.2.2⟩
  · rename_i rest split
    refine bind ((quotedLabel bound).pre fun c there => ?_) fun _ => pure fun _ clear => clear
    exact ⟨there.2.1, rest, there.1 ▸ split⟩
  · exact bind (name.pre fun _ there => there.2.1.ready) fun _ => pure fun _ clear => clear

theorem kind : Keeps source Reader.name (fun c => Clear source braces around c ∨ Stuck c)
    fun _ => Clear source braces around := by
  refine either (name.pre fun _ clear => clear.1) ?_
  have marked : Keeps source Reader.skipGap Stuck fun _ => Stuck := skipGap fun c d stuck skipped => by
    rw [stuck.solid] at skipped
    cases skipped
    exact stuck
  refine bind (mark marked) fun start => ?_
  cases found : name? start.rest with
  | none => exact failure
  | some word =>
    refine token fun c ⟨same, stuck⟩ _ => ?_
    rw [same, stuck.unnamed] at found
    cases found

theorem item (bound : Nat) {inner : Reader (List Item)}
    (body : Keeps source inner (Clear source (braces + 1) around)
      fun _ => Clear source (braces + 1) around) :
    Keeps source (Reader.item bound inner) (fun c => Clear source braces around c ∨ Stuck c)
      fun _ => Clear source braces around := by
  refine bind kind fun _ => ?_
  refine bind (optional_clear rfl (by simp)) fun equals => ite (fun _ => ?_) fun _ => ?_
  · exact bind (expression bound _ _) fun _ => pure fun _ clear => clear
  · refine bind (loop (label bound) bound) fun labels => ?_
    refine bind (openBrace.pre fun _ clear => clear.1) fun _ => bind body fun _ => ?_
    exact bind (closeBrace.pre fun _ clear => clear.1) fun _ => pure fun _ clear => clear

theorem body (bound braces : Nat) (around : List Mode) :
    Keeps source (Reader.body bound) (fun c => Clear source braces around c ∨ Stuck c)
      fun _ => Clear source braces around := by
  induction bound generalizing braces with
  | zero => exact failure
  | succ bound ih =>
    refine loop (bind ahead fun text => ?_) _
    split
    · refine pure fun c ⟨place, facing⟩ => place.resolve_right fun stuck => ?_
      obtain ⟨d, rest, same, -⟩ := stuck.facing facing
      cases same
    · refine pure fun c ⟨place, facing⟩ => place.resolve_right fun stuck => ?_
      obtain ⟨d, rest, same, -, close⟩ := stuck.facing facing
      exact close (List.cons.inj same).1.symm
    · refine bind ((item bound ((ih _).pre fun _ => .inl)).pre fun _ there => there.1) fun _ => ?_
      exact pure fun _ => .inl

/-- What a file holds begins and ends in code outside all braces. -/
theorem content (bound : Nat) :
    Keeps source (Reader.content bound) (fun c => Clear source 0 [] c ∨ Stuck c)
      fun _ => Clear source 0 [] := by
  refine bind ahead fun text => ?_
  split
  · rename_i rest
    have marked : Keeps source Reader.mark
        (fun c => (Clear source 0 [] c ∨ Stuck c) ∧ Facing ('{' :: rest) c)
        fun _ c => Met source 0 [] c ∧ ∃ rest, c.rest = '{' :: rest := by
      refine bind (skipGap fun c d ⟨place, facing⟩ skipped => ?_) fun _ =>
        get.post fun _ _ there => there.2
      have clear : Clear source 0 [] c := place.resolve_right fun stuck => by
        obtain ⟨d, rest, same, brace, -⟩ := stuck.facing facing
        exact brace (List.cons.inj same).1.symm
      obtain ⟨e, seen, same⟩ := facing
      obtain rfl : d = e := Option.some.inj (skipped.symm.trans seen)
      exact ⟨skipGapFrom_met .blank _ _ _ clear.1 skipped, rest, same⟩
    refine bind marked fun _ => bind (object (expression bound) bound) fun e => ?_
    split
    · exact pure fun _ clear => clear
    · exact failure
  · exact bind ((body bound _ _).pre fun _ there => there.1) fun _ => pure fun _ clear => clear

end Keeps

theorem stuck_of_isWord {d : Char} {rest : List Char} (split : c.rest = d :: rest)
    (word : isWord d = true) (other : startsWord d = false) : Stuck c := by
  have shape : d.isDigit = true ∨ d = '-' := by
    simp only [isWord, startsWord, Char.isAlphanum] at word other
    grind
  have starts : startsToken d = true ∧ d ≠ '{' ∧ d ≠ '}' := by
    rcases shape with digit | rfl
    · exact digit_cases (fun d => startsToken d = true ∧ d ≠ '{' ∧ d ≠ '}') (by decide) digit
    · decide
  exact ⟨split ▸ solid_of_head starts.1, split ▸ name?_none other rest,
    d, rest, split, starts.2⟩

theorem wordEnds_or_stuck (text : List Char) (p : Nat) (tokens : List Token) :
    WordEnds text ∨ Stuck ⟨p, text, tokens⟩ := by
  cases text with
  | nil => exact .inl fun _ _ split => nomatch split
  | cons d rest =>
    by_cases starts : startsWord d = true
    · left
      rintro _ _ ⟨⟩
      refine ⟨fun _ => starts, ?_⟩
      rintro rfl
      cases starts
    · by_cases word : isWord d = true
      · exact .inr (stuck_of_isWord rfl word (by simpa using starts))
      · by_cases colon : d = ':'
        · subst colon
          exact .inr ⟨solid_of_head rfl, name?_none rfl rest, ':', rest, rfl, by decide⟩
        · left
          rintro _ _ ⟨⟩
          exact ⟨fun same => absurd same word, fun same => absurd same colon⟩

theorem origin_of_mark (rest : List Char) : origin ('\ufeff' :: rest) = ⟨1, rest, []⟩ := rfl

theorem initial_clear (normal : ∀ i < source.length, Occurs Unmarked source i) :
    Clear source 0 [] ⟨0, source, []⟩ := by
  have tracks : Tracks source ⟨0, source, []⟩ := ⟨rfl, normal, by simp, by simp, by simp⟩
  exact ⟨⟨⟨tracks, rfl, rfl⟩, .inl (.inl (fresh_start rfl _))⟩, fun _ => by simp [before?]⟩

/-- The start of a file. Of what may follow a byte order mark, the normaliser takes dashes, digits
and colons for more of a word, but the grammar reads nothing from there. -/
theorem origin_place (normal : ∀ i < source.length, Occurs Unmarked source i) :
    Clear source 0 [] (origin source) ∨ Stuck (origin source) := by
  have clear := initial_clear normal
  by_cases marked : ∃ rest, source = '\ufeff' :: rest
  · obtain ⟨rest, rfl⟩ := marked
    rw [origin_of_mark]
    have first := @scans_first_letter .initial 0 '\ufeff' rest rfl (fresh_start rfl _) rfl
    have split : '\ufeff' :: rest = ['\ufeff'] ++ rest := rfl
    obtain ⟨code, state⟩ := clear.1.toInCode.forward split first rfl rfl
    refine (wordEnds_or_stuck rest 1 []).imp_left fun ends => ?_
    refine Ready.clear ['\ufeff'] clear.1.tracks rfl (by simp) (by simp) ⟨code, .inl ?_⟩
    rw [state]
    exact .inl (fresh_after_word rfl rfl ends)
  · have same : origin source = ⟨0, source, []⟩ := by
      unfold origin
      split
      · exact absurd ⟨_, rfl⟩ marked
      · rfl
    exact .inl (same ▸ clear)

theorem Exponent.Occurs.inside {event : State → Char → List Char → Prop} {i : Nat}
    (occurs : Occurs event source i) : i < source.length := by
  obtain ⟨c, rest, here, -⟩ := occurs
  by_contra outside
  rw [List.drop_eq_nil_of_le (Nat.le_of_not_lt outside)] at here
  cases here

/-- What the tokens of a whole file say about the scan of its source. -/
structure File.Scanned (file : File) : Prop where
  points : ∀ i, Occurs Point file.source i →
    ∃ slice, Token.number slice ∈ file.tokens ∧ slice.start ≤ i ∧ i + 1 < slice.stop
  recorded : ∀ token ∈ file.tokens, Recorded file.source token
  opened : ∀ i, ¬ Occurs Unopened file.source i

/-- What it takes to read a file: its content, a gap, and nothing after it. -/
theorem readFile?_cases {file : File} (read : readFile? source = some file) :
    ∃ content c, (do let content ← Reader.content (source.length + 2); Reader.skipGap; return content :
        Reader Content) (origin source) = some (content, c) ∧
      c.rest = [] ∧ file = ⟨source, content, c.tokens.reverse⟩ := by
  unfold readFile? at read
  by_cases null : source.contains '\x00' = true
  · rw [if_pos null] at read
    cases read
  · rw [if_neg null] at read
    obtain ⟨⟨content, c⟩, ran, read⟩ := Option.bind_eq_some_iff.mp read
    obtain ⟨⟨⟨⟩, d⟩, skipped, read⟩ := Option.bind_eq_some_iff.mp read
    change (if d.rest.isEmpty = true then some ⟨source, content, d.tokens.reverse⟩ else none) = some file
      at read
    split at read
    · rename_i ended
      refine ⟨content, d, ?_, List.isEmpty_iff.mp ended, (Option.some.inj read).symm⟩
      show (Reader.content _ (origin source)).bind _ = _
      rw [show Reader.content _ (origin source) = some (content, c) from ran]
      show (Reader.skipGap c).bind _ = _
      rw [show Reader.skipGap c = some ((), d) from skipped]
      rfl
    · cases read

/-- A normal source is scanned as it is read, when its tokens are regular. -/
theorem readFile?_scanned {file : File} (read : readFile? source = some file)
    (normal : ∀ i < source.length, Occurs Unmarked source i) (regular : file.Regular) :
    file.Scanned := by
  obtain ⟨content, c, ran, ended, rfl⟩ := readFile?_cases read
  have whole : Keeps source (do let content ← Reader.content (source.length + 2); Reader.skipGap
                                return content)
      (fun c => Clear source 0 [] c ∨ Stuck c) fun _ => Met source 0 [] :=
    .bind (Keeps.content _) fun _ => .bind (Keeps.gap.pre fun _ clear => clear.1) fun _ =>
      .pure fun _ met => met
  have met : Met source 0 [] c := by
    refine (whole _ _ _ ran).2 (fun token member => ?_) (origin_place normal)
    exact regular token (List.mem_reverse.mpr member)
  have passed : source.length ≤ c.position := by
    have placed := met.tracks.placed
    rw [ended] at placed
    exact List.drop_eq_nil_iff.mp placed.symm
  refine ⟨fun i point => ?_, fun token member => ?_, fun i opened => ?_⟩
  · obtain ⟨slice, member, around⟩ := met.tracks.found i (point.inside.trans_le passed) point
    exact ⟨slice, List.mem_reverse.mpr member, around⟩
  · exact (met.tracks.recorded token (List.mem_reverse.mp member)).1
  · exact met.tracks.opened i (opened.inside.trans_le passed) opened

end TerraDoc.Hcl
