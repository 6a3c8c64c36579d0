import TerraDoc.Proofs.ReaderRun
import TerraDoc.Proofs.ReaderTracking
import TerraDoc.Proofs.ScanTracking

namespace TerraDoc.Hcl

open Exponent

/-- A cursor in code, with its open braces and the modes around it. -/
structure InCode (source : List Char) (braces : Nat) (around : List Mode) (c : Cursor) : Prop where
  tracks : Tracks source c
  mode : (stateAt source c.position).mode = .code braces
  around : (stateAt source c.position).around = around

/-- The next character is fresh, or it is the point between two indices. -/
def Boundary (s : State) (text : List Char) : Prop :=
  Fresh s text ∨
    s.phase = .digits true ∧ ∃ digit rest, text = '.' :: digit :: rest ∧ digit.isDigit = true

/-- The rest of the line that closes a heredoc. -/
def ClosingLine (s : State) (text : List Char) : Prop :=
  s.phase = .lastHeredocLine ∧
    ∃ spaces rest, text = spaces ++ '\n' :: rest ∧ ∀ c ∈ spaces, isBlank c = true

/-- A cursor after a token. -/
structure Ready (source : List Char) (braces : Nat) (around : List Mode) (c : Cursor) : Prop extends
    InCode source braces around c where
  boundary : Boundary (stateAt source c.position) c.rest ∨
    ClosingLine (stateAt source c.position) c.rest

/-- A cursor before a token. -/
structure Met (source : List Char) (braces : Nat) (around : List Mode) (c : Cursor) : Prop extends
    InCode source braces around c where
  boundary : Boundary (stateAt source c.position) c.rest
  solid : Solid c.rest

/-- Where no number is taken for an index. -/
def Unpointed (source : List Char) (c : Cursor) : Prop :=
  c.rest ≠ [] → before? source c.position ≠ some '.'

/-- A position at which the scan is in code and free for something new. -/
structure Settled (source : List Char) (braces : Nat) (around : List Mode) (p : Nat) : Prop where
  mode : (stateAt source p).mode = .code braces
  around : (stateAt source p).around = around
  settled : (stateAt source p).phase.isSettled = true

/-- A cursor in a comment, with what was read of it. -/
structure InComment (source : List Char) (braces : Nat) (modes : List Mode) (phase : Phase)
    (start : Nat) (read : List Char) (c : Cursor) : Prop extends
    InCode source braces modes c where
  phase : (stateAt source c.position).phase = phase
  position : c.position = start + read.length
  text : source.drop start = read.reverse ++ c.rest
  numbers : NumbersBefore start c
  begun : Settled source braces modes start

variable {source : List Char} {braces : Nat} {around : List Mode} {c : Cursor}

theorem before?_add (text : List Char) {rest : List Char} {p : Nat}
    (split : source.drop p = text ++ rest) (nonempty : text ≠ []) :
    before? source (p + text.length) = text.getLast? := by
  have taken : source.take (p + text.length) = source.take p ++ text := by
    rw [List.take_add, split, List.take_left]
  rw [before?, taken, List.getLast?_append, List.getLast?_eq_some_getLast nonempty]
  rfl

theorem InCode.forward {braces' : Nat} {around' : List Mode} {text rest : List Char} {t : State}
    (code : InCode source braces around c) (split : c.rest = text ++ rest)
    (scanned : Scans Silent (stateAt source c.position) text rest t)
    (mode : t.mode = .code braces') (modes : t.around = around') :
    InCode source braces' around' ⟨c.position + text.length, rest, c.tokens⟩ ∧
      stateAt source (c.position + text.length) = t := by
  have state := scanned.stateAt_eq (by rw [← code.tracks.placed, split])
  exact ⟨⟨code.tracks.forward split scanned, by rw [state, mode], by rw [state, modes]⟩, state⟩

theorem InCode.token {braces' : Nat} {around' : List Mode} {text rest : List Char} {t : State}
    (code : InCode source braces around c) (split : c.rest = text ++ rest)
    (scanned : Scans Silent (stateAt source c.position) text rest t) (make : Slice → Token)
    (slice : ∀ s, (make s).slice = s) (simple : ∀ s, (make s).isSimple = true)
    (mode : t.mode = .code braces') (modes : t.around = around') :
    InCode source braces' around'
        ⟨c.position + text.length, rest, make ⟨c.position, text⟩ :: c.tokens⟩ ∧
      stateAt source (c.position + text.length) = t := by
  obtain ⟨moved, state⟩ := code.forward split scanned mode modes
  exact ⟨⟨code.tracks.token split scanned slice simple, moved.mode, moved.around⟩, state⟩

theorem InCode.start {s : State} (code : InCode source braces around c)
    (state : stateAt source c.position = s) (start : s.phase = .start) :
    Ready source braces around c := by
  refine ⟨code, .inl (.inl (fresh_start ?_ _))⟩
  rw [state, start]

theorem Met.ready (met : Met source braces around c) : Ready source braces around c :=
  ⟨met.toInCode, .inl met.boundary⟩

theorem Boundary.fresh {s : State} {text : List Char} (boundary : Boundary s text)
    (other : ∀ digit rest, text = '.' :: digit :: rest → digit.isDigit = false) : Fresh s text := by
  rcases boundary with fresh | ⟨-, digit, rest, shape, isDigit⟩
  · exact fresh
  · simp [other digit rest shape] at isDigit

theorem isInert_of_isBlank {c : Char} (blank : isBlank c = true) : isInert c = true := by
  have ascii : c.toNat < 128 := by
    simp only [isBlank, Bool.or_eq_true, Bool.and_eq_true, beq_iff_eq, decide_eq_true_eq] at blank
    rcases blank with rfl | ⟨-, upper⟩
    · decide
    · have bound : c.toNat ≤ '\r'.toNat := upper
      exact Nat.lt_of_le_of_lt bound (by decide)
  exact ascii_cases (fun c => isBlank c = true → isInert c = true) (by decide) ascii blank

theorem ClosingLine.blank {s : State} {d : Char} {rest : List Char}
    (closing : ClosingLine s (d :: rest)) : isBlank d = true := by
  obtain ⟨-, spaces, tail, split, blanks⟩ := closing
  cases spaces with
  | nil =>
    cases split
    rfl
  | cons first spaces =>
    cases split
    exact blanks _ List.mem_cons_self

theorem Ready.fresh {d : Char} {rest : List Char} (ready : Ready source braces around c)
    (split : c.rest = d :: rest) (solid : isBlank d = false) (point : d ≠ '.') :
    Fresh (stateAt source c.position) (d :: rest) := by
  have boundary := ready.boundary
  rw [split] at boundary
  rcases boundary with boundary | closing
  · exact boundary.fresh fun _ _ shape => absurd (List.cons.inj shape).1 point
  · simp [closing.blank] at solid

/-- A blank between two tokens. -/
theorem Ready.blank {d : Char} {rest : List Char} (ready : Ready source braces around c)
    (split : c.rest = d :: rest) (blank : isBlank d = true) :
    Ready source braces around ⟨c.position + 1, rest, c.tokens⟩ := by
  have boundary := ready.boundary
  rw [split] at boundary
  rcases boundary with boundary | ⟨phase, spaces, tail, shape, blanks⟩
  · have fresh : Fresh (stateAt source c.position) (d :: rest) := by
      refine boundary.fresh fun _ _ shape => ?_
      rw [(List.cons.inj shape).1] at blank
      exact absurd blank (by decide)
    have scanned := scans_inert ready.mode fresh (isInert_of_isBlank blank)
    obtain ⟨code, state⟩ := ready.toInCode.forward split scanned ready.mode ready.around
    exact code.start state rfl
  · have here : phaseStep (stateAt source c.position) d rest =
        ((stateAt source c.position).goOn (if d = '\n' then .start else .lastHeredocLine),
          false) := by
      simp only [phaseStep, phase]
    have scanned := scans_step here (by simp [phase])
      (by rintro rfl; exact absurd blank (by decide))
    obtain ⟨code, state⟩ := ready.toInCode.forward split scanned ready.mode ready.around
    by_cases feed : d = '\n'
    · exact code.start state (by simp [State.goOn, feed])
    · cases spaces with
      | nil => exact absurd (List.cons.inj shape).1 feed
      | cons first spaces =>
        obtain ⟨rfl, rfl⟩ := List.cons.inj shape
        refine ⟨code, .inr ⟨?_, spaces, tail, rfl, fun e member => ?_⟩⟩
        · rw [show stateAt source (c.position + 1) = _ from state, if_neg feed]
          rfl
        · exact blanks e (List.mem_cons_of_mem _ member)

theorem Ready.settled {d : Char} {rest : List Char} (ready : Ready source braces around c)
    (fresh : Fresh (stateAt source c.position) (d :: rest)) :
    Settled source braces around c.position :=
  ⟨ready.mode, ready.around, (fresh d rest rfl).1⟩

theorem Ready.comment {phase : Phase} {opening rest : List Char} {t : State}
    (ready : Ready source braces around c) (split : c.rest = opening ++ rest)
    (settled : Settled source braces around c.position)
    (scanned : Scans Silent (stateAt source c.position) opening rest t)
    (mode : t.mode = .code braces) (modes : t.around = around) (inside : t.phase = phase) :
    InComment source braces around phase c.position opening.reverse
      ⟨c.position + opening.length, rest, c.tokens⟩ := by
  obtain ⟨code, state⟩ := ready.toInCode.forward split scanned mode modes
  refine ⟨code, ?_, ?_, ?_, ready.tracks.numbersBefore, settled⟩
  · rw [state, inside]
  · rw [List.length_reverse]
  · rw [List.reverse_reverse, ← split, ready.tracks.placed]

theorem Ready.hash {rest : List Char} (ready : Ready source braces around c)
    (split : c.rest = '#' :: rest) :
    InComment source braces around .lineComment c.position ['#']
      ⟨c.position + 1, rest, c.tokens⟩ := by
  have fresh := ready.fresh split rfl (by decide)
  have scanned := scans_fresh ((stateAt source c.position).goOn .lineComment) fresh
    (by simp [freshStep, ready.mode, codeStep]) (by simp)
  exact ready.comment split (ready.settled fresh) scanned ready.mode ready.around rfl

theorem Ready.slashStar {rest : List Char} (ready : Ready source braces around c)
    (split : c.rest = '/' :: '*' :: rest) :
    InComment source braces around .blockComment c.position ['*', '/']
      ⟨c.position + 2, rest, c.tokens⟩ := by
  have fresh := ready.fresh split rfl (by decide)
  have taken : phaseStep (stateAt source c.position) '/' ('*' :: rest) =
      ((stateAt source c.position).goOn (.skip 1 .blockComment), false) := by
    rw [(fresh _ _ rfl).2]
    simp [freshStep, ready.mode, codeStep]
  have scanned := scans_pair .blockComment taken rfl (by simp) (by simp)
  exact ready.comment split (ready.settled fresh) scanned ready.mode ready.around rfl

namespace InComment

variable {phase : Phase} {start : Nat} {read : List Char}

theorem more {d : Char} {rest : List Char}
    (comment : InComment source braces around phase start read c) (split : c.rest = d :: rest)
    (stays : phaseStep (stateAt source c.position) d rest = (stateAt source c.position, false))
    (outside : phase ≠ .fraction ∧ phase ≠ .skip 1 .start) :
    InComment source braces around phase start (d :: read)
      ⟨c.position + 1, rest, c.tokens⟩ := by
  have scanned := scans_step stays (by simp [comment.phase, outside.1])
    (by simp [comment.phase, outside.2])
  obtain ⟨code, state⟩ := comment.toInCode.forward split scanned comment.mode comment.around
  refine ⟨code, ?_, ?_, ?_, comment.numbers, comment.begun⟩
  · rw [show stateAt source (c.position + 1) = _ from state, ← comment.phase]
  · rw [List.length_cons, comment.position, Nat.add_assoc]
  · rw [comment.text, split]
    simp

theorem line {d : Char} {rest : List Char}
    (comment : InComment source braces around .lineComment start read c)
    (split : c.rest = d :: rest) (other : d ≠ '\n') :
    InComment source braces around .lineComment start (d :: read)
      ⟨c.position + 1, rest, c.tokens⟩ :=
  comment.more split (by simp [phaseStep, comment.phase, other]) (by simp)

theorem block {d : Char} {rest : List Char}
    (comment : InComment source braces around .blockComment start read c)
    (split : c.rest = d :: rest) (other : ∀ after, d = '*' → rest ≠ '/' :: after) :
    InComment source braces around .blockComment start (d :: read)
      ⟨c.position + 1, rest, c.tokens⟩ := by
  refine comment.more split ?_ (by simp)
  simp only [phaseStep, comment.phase]

/-- A comment that was read whole is a token. -/
theorem keep (comment : InComment source braces around phase start read c)
    (left : CommentLeft (stateAt source c.position) c.rest) :
    InComment source braces around phase start read
      { c with tokens := .comment ⟨start, read.reverse⟩ :: c.tokens } := by
  have stop : Slice.stop ⟨start, read.reverse⟩ = c.position := by
    rw [Slice.stop, List.length_reverse, ← comment.position]
  have crossed : (Token.comment ⟨start, read.reverse⟩).Crossed source := by
    obtain ⟨code, modes, settled⟩ := comment.begun
    rw [Token.Crossed, stop, ← comment.tracks.placed]
    refine ⟨⟨⟨braces, code⟩, settled, ?_, ?_⟩, left⟩
    · rw [stop, comment.mode, code]
    · rw [stop, comment.around, modes]
  refine ⟨⟨comment.tracks.keep rfl ?_ ?_ comment.numbers crossed, comment.mode, comment.around⟩,
    comment.phase, comment.position, comment.text, ?_, comment.begun⟩
  · rw [Token.slice, comment.text]
    exact List.prefix_append _ _
  · rw [Token.slice, stop]
  · intro slice member
    rcases List.mem_cons.mp member with same | old
    · cases same
    · exact comment.numbers slice old

theorem lineFeed {rest : List Char}
    (comment : InComment source braces around .lineComment start read c)
    (split : c.rest = '\n' :: rest) :
    Ready source braces around
      ⟨c.position + 1, rest, .comment ⟨start, read.reverse⟩ :: c.tokens⟩ := by
  have taken : phaseStep (stateAt source c.position) '\n' rest =
      ((stateAt source c.position).goOn .start, false) := by
    have inert := codeStep_inert (stateAt source c.position) braces rest
      (show isInert '\n' = true by decide)
    simp [phaseStep, comment.phase, freshStep, comment.mode, inert]
  have scanned := scans_step taken (by simp [comment.phase]) (by simp)
  have kept := comment.keep (.inr ⟨comment.phase, by simp [split]⟩)
  obtain ⟨code, state⟩ := kept.toInCode.forward split scanned comment.mode comment.around
  exact code.start state rfl

/-- A block comment ends with its closing signs. -/
theorem starSlash {rest : List Char}
    (comment : InComment source braces around .blockComment start read c)
    (split : c.rest = '*' :: '/' :: rest) :
    Ready source braces around ⟨c.position + 2, rest,
      .comment ⟨start, ('/' :: '*' :: read).reverse⟩ :: c.tokens⟩ := by
  have taken : phaseStep (stateAt source c.position) '*' ('/' :: rest) =
      ((stateAt source c.position).goOn (.skip 1 .start), false) := by
    simp [phaseStep, comment.phase]
  have scanned := scans_pair .start taken rfl (by simp) (by simp)
  obtain ⟨code, state⟩ := comment.toInCode.forward split scanned comment.mode comment.around
  have whole : InComment source braces around .start start ('/' :: '*' :: read)
      ⟨c.position + 2, rest, c.tokens⟩ := by
    refine ⟨code, ?_, ?_, ?_, comment.numbers, comment.begun⟩
    · rw [show stateAt source (c.position + 2) = _ from state]
    · show c.position + 2 = start + (read.length + 1 + 1)
      rw [comment.position, Nat.add_assoc]
    · rw [comment.text, split]
      simp
  have left : CommentLeft (stateAt source (c.position + 2)) rest := by
    rw [show stateAt source (c.position + 2) = _ from state]
    exact .inl ⟨rfl, by simp⟩
  exact (whole.keep left).toInCode.start state rfl

end InComment

theorem Ready.slashes {rest : List Char} (ready : Ready source braces around c)
    (split : c.rest = '/' :: '/' :: rest) :
    InComment source braces around .lineComment c.position ['/', '/']
      ⟨c.position + 2, rest, c.tokens⟩ := by
  have fresh := ready.fresh split rfl (by decide)
  have scanned := scans_fresh ((stateAt source c.position).goOn .lineComment) fresh
    (by simp [freshStep, ready.mode, codeStep]) (by simp)
  have first : InComment source braces around .lineComment c.position ['/']
      ⟨c.position + 1, '/' :: rest, c.tokens⟩ :=
    ready.comment split (ready.settled fresh) scanned ready.mode ready.around rfl
  exact first.line rfl (by simp)

/-- Nothing, blanks or a comment before a cursor. -/
def InGap (source : List Char) (braces : Nat) (around : List Mode) (c : Cursor) : Gap → Prop
  | .blank => Ready source braces around c
  | .line start read => InComment source braces around .lineComment start read c
  | .block start read => InComment source braces around .blockComment start read c

theorem Ready.met {d : Char} {rest : List Char} (ready : Ready source braces around c)
    (split : c.rest = d :: rest) (solid : Solid (d :: rest)) : Met source braces around c := by
  have blank : isBlank d = false := by
    by_contra blank
    have skipped := solid 0 []
    rw [skipGapFrom_blank (by simpa using blank)] at skipped
    have moved := (skipGapFrom_advances _ _ _ _ skipped).position
    exact absurd moved (Nat.not_succ_le_zero 0)
  refine ⟨ready.toInCode, ?_, split ▸ solid⟩
  rcases ready.boundary with boundary | closing
  · exact boundary
  · rw [split] at closing
    simp [closing.blank] at blank

/-- The grammar and the normaliser skip the same gap. -/
theorem skipGapFrom_met (gap : Gap) (p : Nat) (tokens : List Token) (text : List Char) {d : Cursor}
    (within : InGap source braces around ⟨p, text, tokens⟩ gap)
    (skipped : skipGapFrom gap p tokens text = some d) : Met source braces around d := by
  fun_induction skipGapFrom gap p tokens text with
  | case1 p tokens rest ih => exact ih (Ready.hash within rfl) skipped
  | case2 p tokens rest ih => exact ih (Ready.slashes within rfl) skipped
  | case3 p tokens rest ih => exact ih (Ready.slashStar within rfl) skipped
  | case4 p tokens c rest _ _ _ blank ih => exact ih (Ready.blank within rfl blank) skipped
  | case5 p tokens c rest hash slashes star blank =>
    cases skipped
    refine Ready.met within rfl fun p tokens => ?_
    rw [skipGapFrom.eq_def]
    split <;> simp_all
  | case6 p tokens =>
    cases skipped
    exact ⟨(show Ready source braces around ⟨p, [], tokens⟩ from within).toInCode,
      .inl (fresh_nil _), solid_nil⟩
  | case7 start read p tokens =>
    cases skipped
    have kept := InComment.keep within (.inr ⟨InComment.phase within, by simp⟩)
    exact ⟨kept.toInCode, .inl (fresh_nil _), solid_nil⟩
  | case8 start read p tokens rest ih => exact ih (InComment.lineFeed within rfl) skipped
  | case9 start read p tokens c rest other ih => exact ih (InComment.line within rfl other) skipped
  | case10 => cases skipped
  | case11 start read p tokens rest ih => exact ih (InComment.starSlash within rfl) skipped
  | case12 start read p tokens c rest other ih =>
    refine ih (InComment.block within rfl ?_) skipped
    exact fun after star slash => other after star slash

/-- A gap does not end in a point. -/
theorem skipGapFrom_unpointed (gap : Gap) (p : Nat) (tokens : List Token) (text : List Char)
    {d : Cursor} (placed : source.drop p = text)
    (before : gap = .blank → text ≠ [] → before? source p ≠ some '.')
    (skipped : skipGapFrom gap p tokens text = some d) : Unpointed source d := by
  fun_induction skipGapFrom gap p tokens text with
  | case1 p tokens rest ih => exact ih (drop_of_split ['#'] placed) (by simp) skipped
  | case2 p tokens rest ih => exact ih (drop_of_split ['/', '/'] placed) (by simp) skipped
  | case3 p tokens rest ih => exact ih (drop_of_split ['/', '*'] placed) (by simp) skipped
  | case4 p tokens c rest _ _ _ blank ih =>
    refine ih (drop_of_split [c] placed) (fun _ _ => ?_) skipped
    rw [show before? source (p + 1) = some c from before?_add [c] placed (by simp)]
    rintro ⟨⟩
    exact absurd blank (by decide)
  | case5 p tokens c rest _ _ _ _ =>
    cases skipped
    exact before rfl
  | case6 | case7 =>
    cases skipped
    exact fun nonempty => absurd rfl nonempty
  | case8 start read p tokens rest ih =>
    refine ih (drop_of_split ['\n'] placed) (fun _ _ => ?_) skipped
    rw [show before? source (p + 1) = some '\n' from before?_add ['\n'] placed (by simp)]
    simp
  | case9 start read p tokens c rest _ ih =>
    exact ih (drop_of_split [c] placed) (by simp) skipped
  | case10 => cases skipped
  | case11 start read p tokens rest ih =>
    refine ih (drop_of_split ['*', '/'] placed) (fun _ _ => ?_) skipped
    rw [show before? source (p + 2) = some '/' from before?_add ['*', '/'] placed (by simp)]
    simp
  | case12 start read p tokens c rest _ ih =>
    exact ih (drop_of_split [c] placed) (by simp) skipped

end TerraDoc.Hcl
