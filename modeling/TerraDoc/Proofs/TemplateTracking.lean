import TerraDoc.Proofs.QuotedScan
import TerraDoc.Proofs.TokenTracking

namespace TerraDoc.Hcl

open Exponent

/-- A cursor between two stretches of a quoted string that stands in code. -/
structure InQuote (source : List Char) (braces : Nat) (around : List Mode) (c : Cursor) : Prop where
  tracks : Tracks source c
  mode : (stateAt source c.position).mode = .quoted
  around : (stateAt source c.position).around = .code braces :: around
  phase : (stateAt source c.position).phase = .start

/-- A cursor before a sign and a brace that stand after the same sign. -/
def AtDoubled (source : List Char) (c : Cursor) : Prop :=
  ∃ sign rest, c.rest = sign :: '{' :: rest ∧ isTemplateSign sign = true ∧
    before? source c.position = some sign

variable {source : List Char} {braces : Nat} {around : List Mode} {c : Cursor}

theorem InQuote.token {text rest : List Char} {previous : Char}
    (quote : InQuote source braces around c) (split : c.rest = text ++ rest)
    (scanned : Scans Silent (stateAt source c.position) text rest
      { stateAt source c.position with previous })
    (make : Slice → Token) (slice : ∀ s, (make s).slice = s)
    (simple : ∀ s, (make s).isSimple = true) :
    InQuote source braces around
      ⟨c.position + text.length, rest, make ⟨c.position, text⟩ :: c.tokens⟩ := by
  have state := scanned.stateAt_eq (by rw [← quote.tracks.placed, split])
  refine ⟨quote.tracks.token split scanned slice simple, ?_, ?_, ?_⟩
  · rw [state, quote.mode]
  · rw [state, quote.around]
  · rw [state, quote.phase]

theorem Met.quote {rest : List Char} (met : Met source braces around c)
    (split : c.rest = '"' :: rest) :
    InQuote source braces around ⟨c.position + 1, rest, c.tokens⟩ := by
  have fresh := met.ready.fresh split rfl (by decide)
  have scanned := scans_fresh ((stateAt source c.position).enter .quoted .start) fresh
    (by simp [freshStep, met.mode, codeStep]) (by simp)
  have state := scanned.stateAt_eq (by rw [← met.tracks.placed, split]; rfl)
  refine ⟨met.tracks.forward split scanned, congrArg State.mode state,
    (congrArg State.around state).trans ?_, congrArg State.phase state⟩
  simp [State.enter, met.mode, met.around]

theorem InQuote.phaseStep (quote : InQuote source braces around c) (d : Char) (rest : List Char) :
    phaseStep (stateAt source c.position) d rest =
      (quotedStep (stateAt source c.position) d rest, false) := by
  simp [Exponent.phaseStep, quote.phase, freshStep, quote.mode]

theorem InQuote.close {rest : List Char} (quote : InQuote source braces around c)
    (split : c.rest = '"' :: rest) :
    Clear source braces around ⟨c.position + 1, rest, c.tokens⟩ := by
  have taken : quotedStep (stateAt source c.position) '"' rest =
      { stateAt source c.position with mode := .code braces, around, phase := .start } := by
    simp [quotedStep, State.leave, quote.around]
  have scanned := scans_step (quote.phaseStep '"' rest) (by simp [quote.phase]) (by simp)
  rw [taken] at scanned
  have state := scanned.stateAt_eq (by rw [← quote.tracks.placed, split]; rfl)
  have code : InCode source braces around ⟨c.position + 1, rest, c.tokens⟩ :=
    ⟨quote.tracks.forward split scanned, congrArg State.mode state, congrArg State.around state⟩
  exact (code.start state rfl).clear ['"'] quote.tracks split (by simp) (by simp)

/-- The signs that open an interpolation or a directive. -/
theorem InQuote.open {sign : Char} {rest : List Char} (quote : InQuote source braces around c)
    (split : c.rest = sign :: '{' :: rest) (template : isTemplateSign sign = true) :
    Clear source 0 (.quoted :: .code braces :: around)
      ⟨c.position + 2, rest, .opening ⟨c.position, [sign, '{']⟩ :: c.tokens⟩ := by
  have taken : quotedStep (stateAt source c.position) sign ('{' :: rest) =
      (stateAt source c.position).enter (.code 0) (.skip 1 .start) := by
    rcases Bool.or_eq_true_iff.mp template with dollar | percent
    · rw [beq_iff_eq.mp dollar]
      rfl
    · rw [beq_iff_eq.mp percent]
      rfl
  have here := quote.phaseStep sign ('{' :: rest)
  rw [taken] at here
  have scanned := scans_pair .start here rfl (by rintro rfl; cases template) (by simp)
  have state := scanned.stateAt_eq (by rw [← quote.tracks.placed, split]; rfl)
  have code : InCode source 0 (.quoted :: .code braces :: around)
      ⟨c.position + 2, rest, .opening ⟨c.position, [sign, '{']⟩ :: c.tokens⟩ := by
    refine ⟨quote.tracks.token split scanned (fun _ => rfl) (fun _ => rfl),
      congrArg State.mode state, (congrArg State.around state).trans ?_⟩
    simp [State.enter, quote.mode, quote.around]
  exact (code.start state rfl).clear [sign, '{'] quote.tracks split (by simp) (by simp)

theorem Met.leave {rest : List Char} (met : Met source 0 (.quoted :: .code braces :: around) c)
    (split : c.rest = '}' :: rest) :
    InQuote source braces around ⟨c.position + 1, rest, c.tokens⟩ := by
  have fresh := met.ready.fresh split rfl (by decide)
  have scanned := scans_fresh (stateAt source c.position).leave fresh
    (by simp [freshStep, met.mode, codeStep, met.around]) (by simp)
  have state := scanned.stateAt_eq (by rw [← met.tracks.placed, split]; rfl)
  have left : (stateAt source c.position).leave =
      { stateAt source c.position with
        mode := .quoted, around := .code braces :: around, phase := .start } := by
    simp [State.leave, met.around]
  rw [left] at state
  refine ⟨met.tracks.forward split scanned, congrArg State.mode state,
    congrArg State.around state, congrArg State.phase state⟩

theorem hexDigits_of_filter {text : List Char} {count : Nat}
    (full : ((text.take count).filter isHexDigit).length = count) :
    (text.take count).length = count ∧ ∀ c ∈ text.take count, isHexDigit c = true := by
  have most := List.length_filter_le isHexDigit (text.take count)
  have least := List.length_take_le count text
  exact ⟨by omega, List.length_filter_eq_length_iff.mp (by omega)⟩

/-- The escapes of the grammar: a letter, and hexadecimal digits after two of them. -/
theorem escapeLength?_cases {text : List Char} {length : Nat}
    (found : escapeLength? text = some length) :
    ∃ letter digits rest, text = letter :: (digits ++ rest) ∧ length = digits.length + 1 ∧
      ∀ c ∈ digits, isHexDigit c = true := by
  unfold escapeLength? at found
  split at found
  case h_6 rest =>
    split at found
    · cases found
      obtain ⟨length, hex⟩ := hexDigits_of_filter ‹_›
      exact ⟨'u', rest.take 4, rest.drop 4, by rw [List.take_append_drop], by rw [length], hex⟩
    · cases found
  case h_7 rest =>
    split at found
    · cases found
      obtain ⟨length, hex⟩ := hexDigits_of_filter ‹_›
      exact ⟨'U', rest.take 8, rest.drop 8, by rw [List.take_append_drop], by rw [length], hex⟩
    · cases found
  case h_8 => cases found
  all_goals
    cases found
    exact ⟨_, [], _, rfl, rfl, by simp⟩

theorem InQuote.escape {after : List Char} {length : Nat}
    (quote : InQuote source braces around c) (split : c.rest = '\\' :: after)
    (found : escapeLength? after = some length) (make : Slice → Token)
    (slice : ∀ s, (make s).slice = s) (simple : ∀ s, (make s).isSimple = true) :
    InQuote source braces around ⟨c.position + (length + 1), c.rest.drop (length + 1),
      make ⟨c.position, c.rest.take (length + 1)⟩ :: c.tokens⟩ := by
  obtain ⟨letter, digits, rest, rfl, rfl, hex⟩ := escapeLength?_cases found
  have whole : c.rest = ('\\' :: letter :: digits) ++ rest := by rw [split]; rfl
  obtain ⟨previous, scanned⟩ := @scans_coded (stateAt source c.position) letter digits rest
    quote.mode quote.phase hex
  have read := quote.token whole scanned make slice simple
  have count : ('\\' :: letter :: digits).length = digits.length + 1 + 1 := rfl
  rw [whole, ← count, List.drop_left, List.take_left]
  exact read

theorem takeWhile_split (kind : Char → Bool) (text : List Char) :
    ∃ rest, text = text.takeWhile kind ++ rest ∧ ∀ c ∈ rest.head?, kind c = false := by
  refine ⟨text.dropWhile kind, List.takeWhile_append_dropWhile.symm, fun c head => ?_⟩
  have stops := List.head?_dropWhile_not kind text
  rw [Option.mem_def.mp head] at stops
  exact stops

theorem exists_longest (kind : Char → Bool) (text : List Char) :
    ∃ front after, text = front ++ after ∧ (∀ c ∈ front, kind c = true) ∧
      ∀ c ∈ after.head?, kind c = false := by
  obtain ⟨after, split, ends⟩ := takeWhile_split kind text
  exact ⟨text.takeWhile kind, after, split, fun _ => List.mem_takeWhile_imp, ends⟩

theorem InQuote.plain (quote : InQuote source braces around c)
    (regular : (Token.text ⟨c.position,
      c.rest.take (c.rest.takeWhile Reader.isPlain).length⟩).Regular source) :
    InQuote source braces around ⟨c.position + (c.rest.takeWhile Reader.isPlain).length,
      c.rest.drop (c.rest.takeWhile Reader.isPlain).length,
      .text ⟨c.position, c.rest.take (c.rest.takeWhile Reader.isPlain).length⟩ :: c.tokens⟩ := by
  obtain ⟨rest, split, -⟩ := takeWhile_split Reader.isPlain c.rest
  have plain : ∀ d ∈ c.rest.takeWhile Reader.isPlain, Reader.isPlain d = true :=
    fun d member => List.mem_takeWhile_imp member
  generalize c.rest.takeWhile Reader.isPlain = text at *
  rw [split, List.take_left] at regular
  obtain ⟨previous, scanned⟩ := @scans_quotedPlain (stateAt source c.position) text rest
    quote.mode quote.phase fun d member => by
      have here := plain d member
      have feed : d ≠ '\n' := by rintro rfl; exact regular member
      simp only [Reader.isPlain, Bool.and_eq_true, bne_iff_ne] at here
      simp [isQuotedPlain, here, feed]
  have read := quote.token split scanned .text (fun _ => rfl) fun _ => rfl
  rwa [split, List.drop_left, List.take_left]

/-- A stretch of a label. -/
theorem InQuote.label {kind : Char → Bool} (quote : InQuote source braces around c)
    (other : ∀ d, kind d = (d != '"' && d != '\\'))
    (regular : (Token.labelText ⟨c.position,
      c.rest.take (c.rest.takeWhile kind).length⟩).Regular source) :
    InQuote source braces around ⟨c.position + (c.rest.takeWhile kind).length,
      c.rest.drop (c.rest.takeWhile kind).length,
      .labelText ⟨c.position, c.rest.take (c.rest.takeWhile kind).length⟩ :: c.tokens⟩ := by
  obtain ⟨rest, split, ends⟩ := takeWhile_split kind c.rest
  have plain : ∀ d ∈ c.rest.takeWhile kind, kind d = true :=
    fun d member => List.mem_takeWhile_imp member
  generalize c.rest.takeWhile kind = text at *
  rw [split, List.take_left] at regular
  obtain ⟨noFeed, doubled⟩ := regular
  obtain ⟨previous, scanned⟩ := @scans_doubledText (stateAt source c.position) text rest
    quote.mode quote.phase doubled
    (fun d member => by
      have here := plain d member
      have feed : d ≠ '\n' := by rintro rfl; exact noFeed member
      simpa [other, feed] using here)
    (fun d head => by
      have stops := ends d head
      rw [other] at stops
      by_cases quoteSign : d = '"'
      · subst quoteSign
        exact ⟨by simp, rfl⟩
      · obtain rfl : d = '\\' := by simpa [quoteSign] using stops
        exact ⟨by simp, rfl⟩)
  have read := quote.token split scanned .labelText (fun _ => rfl) fun _ => rfl
  rwa [split, List.drop_left, List.take_left]

theorem InQuote.sign {sign : Char} {after : List Char} (quote : InQuote source braces around c)
    (split : c.rest = sign :: after) (template : isTemplateSign sign = true)
    (single : ∀ rest, after ≠ '{' :: rest) (doubled : ∀ rest, after ≠ sign :: '{' :: rest) :
    InQuote source braces around
      ⟨c.position + 1, after, .text ⟨c.position, [sign]⟩ :: c.tokens⟩ := by
  have scanned := scans_sign quote.mode quote.phase template single doubled
  exact quote.token split scanned .text (fun _ => rfl) fun _ => rfl

theorem InQuote.doubled {sign : Char} {rest : List Char} (quote : InQuote source braces around c)
    (split : c.rest = sign :: sign :: '{' :: rest) (template : isTemplateSign sign = true) :
    InQuote source braces around
      ⟨c.position + 3, rest, .text ⟨c.position, [sign, sign, '{']⟩ :: c.tokens⟩ := by
  have scanned := @scans_doubled _ sign rest quote.mode quote.phase template
  exact quote.token split scanned .text (fun _ => rfl) fun _ => rfl

/-- A doubled sign without a brace after it; a third sign may open something. -/
theorem InQuote.pair {sign : Char} {after : List Char} (quote : InQuote source braces around c)
    (split : c.rest = sign :: sign :: after) (template : isTemplateSign sign = true)
    (single : ∀ rest, after ≠ '{' :: rest) :
    InQuote source braces around
        ⟨c.position + 2, after, .text ⟨c.position, [sign, sign]⟩ :: c.tokens⟩ ∨
      AtDoubled source ⟨c.position + 2, after, .text ⟨c.position, [sign, sign]⟩ :: c.tokens⟩ := by
  by_cases third : ∃ rest, after = sign :: '{' :: rest
  · obtain ⟨rest, rfl⟩ := third
    refine .inr ⟨sign, rest, rfl, template, ?_⟩
    exact before?_add [sign, sign] (by rw [← quote.tracks.placed, split]; rfl) (by simp)
  · left
    have first := @scans_sign _ sign (sign :: after) quote.mode quote.phase template
      (fun rest same => by cases (List.cons.inj same).1; cases template)
      (fun rest same => single rest (List.cons.inj same).2)
    have second := @scans_sign { stateAt source c.position with previous := sign } sign after
      quote.mode quote.phase template single fun rest same => third ⟨rest, same⟩
    exact quote.token split (first.append second) .text (fun _ => rfl) fun _ => rfl

/-- A cursor between two stretches of a quoted string, with the parts that they gave. Without parts
no number was read. -/
structure Between (source : List Char) (braces : Nat) (around : List Mode) (start : Nat)
    (given : List (List Part)) (c : Cursor) : Prop where
  place : InQuote source braces around c ∨ AtDoubled source c
  numbers : given.flatten = [] → NumbersBefore start c

theorem NumbersBefore.cons {start position : Nat} {rest : List Char} {token : Token}
    (numbers : NumbersBefore start c) (other : token.isNumber = false) :
    NumbersBefore start ⟨position, rest, token :: c.tokens⟩ := by
  intro slice member
  rcases List.mem_cons.mp member with rfl | old
  · cases other
  · exact numbers slice old

theorem Between.text {start position : Nat} {given : List (List Part)} {rest : List Char}
    {slice : Slice} (between : Between source braces around start given c)
    (place : InQuote source braces around ⟨position, rest, .text slice :: c.tokens⟩ ∨
      AtDoubled source ⟨position, rest, .text slice :: c.tokens⟩) :
    Between source braces around start (given ++ [[]])
      ⟨position, rest, .text slice :: c.tokens⟩ := by
  refine ⟨place, fun none => ?_⟩
  exact (between.numbers (by simpa using none)).cons rfl

theorem Between.inQuote {start : Nat} {given : List (List Part)}
    (between : Between source braces around start given c)
    (other : ∀ sign rest, c.rest = sign :: '{' :: rest → isTemplateSign sign = false) :
    InQuote source braces around c := by
  rcases between.place with quote | ⟨sign, rest, split, template, -⟩
  · exact quote
  · simp [other sign rest split] at template

/-- What was read since a place is a token when no number was. -/
theorem Clear.keep {start : Cursor} {make : Slice → Token}
    (clear : Clear source braces around c) (slice : ∀ s, (make s).slice = s)
    (simple : ∀ s, (make s).isSimple = true) (since : Since source start c)
    (numbers : NumbersBefore start.position c) :
    Clear source braces around { c with
      tokens := make ⟨start.position, start.rest.take (c.position - start.position)⟩ :: c.tokens } := by
  obtain ⟨ready, unpointed⟩ := clear
  have spans : start.rest.take (c.position - start.position) <+: source.drop start.position :=
    since.placed ▸ List.take_prefix _ _
  have stop : start.position + (start.rest.take (c.position - start.position)).length ≤
      c.position := by
    have short := List.length_take_le (c.position - start.position) start.rest
    have passed := since.position
    omega
  generalize start.rest.take (c.position - start.position) = text at *
  have tracks : Tracks source { c with tokens := make ⟨start.position, text⟩ :: c.tokens } := by
    apply ready.tracks.keep (Token.isNumber_of_isSimple (simple _))
    · rwa [slice]
    · rwa [slice]
    · rwa [slice]
    · exact Token.crossed_of_isSimple (simple _)
  exact ⟨⟨⟨tracks, ready.mode, ready.around⟩, ready.boundary⟩, unpointed⟩

namespace Keeps

theorem optional_clear {sign : List Char} (plain : isPlainSign sign = true)
    (last : sign.getLast? ≠ some '.') :
    Keeps source (Reader.optional? sign) (Clear source braces around)
      fun _ => Clear source braces around := by
  have keeps := optional ((sign_clear plain last).pre fun c (clear : Clear source braces around c) =>
    clear.1)
  refine keeps.post fun found c holds => ?_
  cases found <;> exact holds

theorem closing : Keeps source Reader.closing (Clear source 0 (.quoted :: .code braces :: around))
    fun _ => InQuote source braces around := by
  refine bind (optional_clear rfl (by simp)) fun _ => ?_
  exact (symbol fun _ _ met split => met.leave split).pre fun _ clear => clear.1

theorem closingAhead {P : Cursor → Prop} : Keeps source Reader.closingAhead P fun _ => P := by
  refine bind ahead fun text => ?_
  split <;> exact pure fun _ here => here.1

theorem names : Keeps source Reader.names (Ready source braces around)
    fun _ => Clear source braces around := by
  refine bind name fun _ => bind (optional_clear rfl (by simp)) fun more => ?_
  cases more with
  | true => exact bind (name.pre fun _ clear => clear.1) fun _ => (word _).pre fun _ clear => clear.1
  | false => exact (word _).pre fun _ clear => clear.1

theorem stretch {sign : Char} {after : List Char} {count start : Nat} {given : List (List Part)}
    (other : ∀ rest, after ≠ '{' :: rest)
    (step : ∀ c, InQuote source braces around c → c.rest = sign :: after →
      let c' : Cursor := ⟨c.position + count, c.rest.drop count,
        .text ⟨c.position, c.rest.take count⟩ :: c.tokens⟩
      InQuote source braces around c' ∨ AtDoubled source c') :
    Keeps source (do let _ ← Reader.token .text count; Pure.pure [])
      (fun c => Between source braces around start given c ∧ c.rest = sign :: after)
      fun parts => Between source braces around start (given ++ [parts]) := by
  refine bind (Q := fun _ => Between source braces around start (given ++ [[]])) ?_
    fun _ => pure fun _ between => between
  refine token fun c ⟨between, split⟩ _ => between.text (step c (between.inQuote ?_) split)
  intro sign' rest split'
  exact absurd (List.cons.inj (split.symm.trans split')).2 (other rest)

theorem openQuote (start : Cursor) :
    Keeps source (Reader.take 1)
      (fun c => start = c ∧ Met source braces around c ∧ ∃ rest, c.rest = '"' :: rest)
      fun _ c => (InQuote source braces around c ∧ NumbersBefore start.position c) ∧
        Since source start c := by
  refine take fun c ⟨same, met, rest, split⟩ => ?_
  subst same
  have quote := met.quote split
  rw [split]
  exact ⟨⟨quote, met.tracks.numbersBefore⟩, met.tracks.placed, Nat.le_succ _⟩

theorem closeQuote (start : Cursor) (plain : Prop) :
    Keeps source (Reader.take 1)
      (fun c => ((InQuote source braces around c ∧ ∃ rest, c.rest = '"' :: rest) ∧
        (plain → NumbersBefore start.position c)) ∧ Since source start c)
      fun _ c => (Clear source braces around c ∧ (plain → NumbersBefore start.position c)) ∧
        Since source start c := by
  refine take fun c ⟨⟨⟨quote, rest, split⟩, numbers⟩, since⟩ => ?_
  have clear := quote.close split
  rw [split]
  exact ⟨⟨clear, numbers⟩, since.placed, Nat.le_succ_of_le since.position⟩

section Inside

variable {expression : Reader Expr}
  (inner : ∀ braces around, Keeps source expression (Clear source braces around)
    fun _ => Clear source braces around)

include inner

theorem interpolation :
    Keeps source (Reader.interpolation expression)
      (Clear source 0 (.quoted :: .code braces :: around)) fun _ => InQuote source braces around := by
  refine bind (optional_clear rfl (by simp)) fun _ => ?_
  refine bind closingAhead fun ends => ite (fun _ => ?_) fun _ => ?_
  · exact bind closing fun _ => pure fun _ quote => quote
  · exact bind (inner _ _) fun _ => bind closing fun _ => pure fun _ quote => quote

theorem directive :
    Keeps source (Reader.directive expression)
      (Clear source 0 (.quoted :: .code braces :: around)) fun _ => InQuote source braces around := by
  refine bind (optional_clear rfl (by simp)) fun _ => ?_
  refine bind (name.pre fun _ clear => clear.1) fun tag => ?_
  have finish (part : Part) : Keeps source (do Reader.closing; Pure.pure part)
      (Clear source 0 (.quoted :: .code braces :: around)) fun _ => InQuote source braces around :=
    bind closing fun _ => pure fun _ quote => quote
  have given (part : Part) : Keeps source (do let part ← Pure.pure part; Reader.closing; Pure.pure part)
      (Clear source 0 (.quoted :: .code braces :: around)) fun _ => InQuote source braces around :=
    bind (pure fun _ clear => clear) finish
  dsimp only
  split
  · exact bind (names.pre fun _ clear => clear.1) fun _ => bind (inner _ _) fun _ => given _
  · exact bind (inner _ _) fun _ => given _
  · exact given _
  · exact given _
  · exact given _
  · exact never

/-- A stretch that begins with a template sign. -/
theorem signed {sign : Char} (template : isTemplateSign sign = true) (after : List Char)
    (start : Nat) (given : List (List Part)) :
    Keeps source (Reader.signed expression sign after)
      (fun c => Between source braces around start given c ∧ c.rest = sign :: after)
      fun parts => Between source braces around start (given ++ [parts]) := by
  unfold Reader.signed
  split
  · rename_i rest
    have opening : Keeps source (Reader.token .opening 2)
        (fun c => Between source braces around start given c ∧ c.rest = sign :: '{' :: rest)
        fun _ => Clear source 0 (.quoted :: .code braces :: around) := by
      refine token fun c ⟨between, split⟩ regular => ?_
      rw [split] at regular ⊢
      rcases between.place with quote | ⟨sign', rest', split', -, before⟩
      · exact quote.open split template
      · obtain ⟨rfl, -⟩ := List.cons.inj (split.symm.trans split')
        exact absurd before regular
    refine bind opening fun _ => ite (fun _ => ?_) fun _ => ?_
    · exact bind (interpolation inner) fun part => pure fun c quote => ⟨.inl quote, by simp⟩
    · exact bind (directive inner) fun part => pure fun c quote => ⟨.inl quote, by simp⟩
  · rename_i d rest other
    have brace : ∀ rest', d :: '{' :: rest ≠ '{' :: rest' :=
      fun _ same => other (List.cons.inj same).1
    refine stretch brace fun c quote split => ?_
    rw [split]
    by_cases same : d = sign
    · subst same
      rw [if_pos rfl]
      exact .inl (quote.doubled split template)
    · rw [if_neg same]
      exact .inl (quote.sign split template brace fun _ twice => same (List.cons.inj twice).1)
  · rename_i d rest other second
    have brace : ∀ rest', d :: rest ≠ '{' :: rest' := fun _ same => other (List.cons.inj same).1
    refine stretch brace fun c quote split => ?_
    rw [split]
    by_cases same : d = sign
    · subst same
      rw [if_pos rfl]
      exact quote.pair split template fun _ single => second _ single
    · rw [if_neg same]
      exact .inl (quote.sign split template brace fun _ twice => same (List.cons.inj twice).1)
  · refine stretch (by simp) fun c quote split => ?_
    rw [split]
    exact .inl (quote.sign split template (by simp) (by simp))

/-- The next stretch of a quoted string, or its closing quote. -/
theorem quotedPart (start : Nat) (given : List (List Part)) :
    Keeps source (Reader.quotedPart expression) (Between source braces around start given)
      fun found => found.elim
        (fun c => (InQuote source braces around c ∧ ∃ rest, c.rest = '"' :: rest) ∧
          (given.flatten = [] → NumbersBefore start c))
        fun parts => Between source braces around start (given ++ [parts]) := by
  refine bind get fun here => ?_
  have quote (c : Cursor) (d : Char) (rest : List Char) (split : here.rest = d :: rest)
      (other : isTemplateSign d = false)
      (there : here = c ∧ Between source braces around start given c) :
      InQuote source braces around c := by
    refine there.2.inQuote fun sign rest' shape => ?_
    rw [← there.1, split] at shape
    rwa [← (List.cons.inj shape).1]
  split
  · rename_i rest split
    exact pure fun c there =>
      ⟨⟨quote c _ rest split rfl there, rest, there.1 ▸ split⟩, there.2.numbers⟩
  · rename_i after split
    refine bind ((signed inner rfl after start given).pre fun c there => ?_) fun _ =>
      pure fun _ between => between
    exact ⟨there.2, there.1 ▸ split⟩
  · rename_i after split
    refine bind ((signed inner rfl after start given).pre fun c there => ?_) fun _ =>
      pure fun _ between => between
    exact ⟨there.2, there.1 ▸ split⟩
  · rename_i after split
    split
    · rename_i length found
      refine bind (token fun c there _ => ?_) fun _ => pure fun _ between => between
      have here := quote c _ after split rfl there
      refine there.2.text (.inl (here.escape ?_ found .text (fun _ => rfl) fun _ => rfl))
      exact there.1 ▸ split
    · exact failure
  · rename_i d rest quoteSign dollar percent slash split
    refine bind (token fun c there regular => ?_) fun _ => pure fun _ between => between
    have plain : isTemplateSign d = false := by
      rw [isTemplateSign, Bool.or_eq_false_iff, beq_eq_false_iff_ne, beq_eq_false_iff_ne]
      exact ⟨dollar, percent⟩
    have here := quote c d rest split plain there
    rw [← split, there.1] at regular ⊢
    exact there.2.text (.inl (here.plain regular))
  · exact failure

theorem quoted (bound : Nat) :
    Keeps source (Reader.quoted bound expression)
      (fun c => Met source braces around c ∧ ∃ rest, c.rest = '"' :: rest)
      fun _ => Clear source braces around := by
  refine bind get fun start => ?_
  have stretches := @repeated (List Part) source (Reader.quotedPart expression)
    (Between source braces around start.position)
    (fun given c => (InQuote source braces around c ∧ ∃ rest, c.rest = '"' :: rest) ∧
      (given.flatten = [] → NumbersBefore start.position c))
    (quotedPart inner start.position) bound []
  refine bind (openQuote start) fun _ => bind ((stretches.since start).pre fun c there =>
    ⟨⟨.inl there.1.1, fun _ => there.1.2⟩, there.2⟩) fun parts => ?_
  refine bind (closeQuote start (parts.flatten = [])) fun _ => ?_
  refine bind sliceFrom fun slice => ite (fun empty => ?_) fun _ => ?_
  · refine bind (keep fun c ⟨same, ⟨clear, numbers⟩, since⟩ _ => ?_) fun _ =>
      pure fun _ clear => clear
    subst same
    exact clear.keep (fun _ => rfl) (fun _ => rfl) since (numbers (List.isEmpty_iff.mp empty))
  · exact ite (fun _ => pure fun _ there => there.2.1.1) fun _ => failure

end Inside

/-- The next stretch of a quoted label, or its closing quote. -/
theorem labelPart (start : Nat) :
    Keeps source Reader.labelPart
      (fun c => InQuote source braces around c ∧ NumbersBefore start c) fun found => found.elim
        (fun c => (InQuote source braces around c ∧ ∃ rest, c.rest = '"' :: rest) ∧
          NumbersBefore start c)
        fun _ c => InQuote source braces around c ∧ NumbersBefore start c := by
  refine bind get fun here => ?_
  split
  · rename_i rest split
    exact pure fun c ⟨same, quote, numbers⟩ => ⟨⟨quote, rest, same ▸ split⟩, numbers⟩
  · rename_i after split
    split
    · rename_i length found
      refine bind (token fun c ⟨same, quote, numbers⟩ _ => ?_) fun _ => pure fun _ there => there
      rw [same] at split
      exact ⟨quote.escape split found .labelText (fun _ => rfl) fun _ => rfl, numbers.cons rfl⟩
    · exact failure
  · rename_i d rest quoteSign slash split
    refine bind (token fun c ⟨same, quote, numbers⟩ regular => ?_) fun _ => pure fun _ there => there
    rw [← split, same] at regular ⊢
    exact ⟨quote.label (fun _ => rfl) regular, numbers.cons rfl⟩
  · exact failure

theorem quotedLabel (bound : Nat) :
    Keeps source (Reader.quotedLabel bound)
      (fun c => Met source braces around c ∧ ∃ rest, c.rest = '"' :: rest)
      fun _ => Clear source braces around := by
  refine bind get fun start => ?_
  refine bind (openQuote start) fun _ => ?_
  refine bind ((loop (labelPart start.position) bound).since start) fun _ => ?_
  refine bind ((closeQuote start True).pre fun c there =>
    ⟨⟨there.1.1, fun _ => there.1.2⟩, there.2⟩) fun _ => bind sliceFrom fun slice => ?_
  refine bind (keep fun c ⟨same, ⟨clear, numbers⟩, since⟩ _ => ?_) fun _ =>
    pure fun _ clear => clear
  subst same
  exact clear.keep (fun _ => rfl) (fun _ => rfl) since (numbers trivial)

end Keeps

end TerraDoc.Hcl
