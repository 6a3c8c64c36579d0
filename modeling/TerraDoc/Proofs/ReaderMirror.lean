import TerraDoc.Proofs.CommentLookahead

namespace TerraDoc.Hcl

/-- A reader's way from a cursor to a later one, and the text that it went past with a space in
place of every comment. -/
def Passed (c d : Cursor) (other : List Char) : Prop :=
  ∃ text tokens, c.rest = text ++ d.rest ∧ d.position = c.position + text.length ∧
    d.tokens = tokens.reverse ++ c.tokens ∧ Spacing c.position text tokens other

/-- How the texts before a reader and after it relate to those of its mirror image. -/
abbrev Beside := List Char → List Char → Prop

/-- What a reader reads at a cursor, other readers read where comments are spaces, provided that
less than so many characters are left for them. They go past at least so many. All of them go past
the same text, so it does not hang on what was read before. -/
def Mirrors {α ι : Type} (before after : Beside) (least : α → Nat) (most : Nat) (reader : Reader α)
    (others : ι → Reader α) (alike : α → α → Prop) (c : Cursor) : Prop :=
  ∀ a d, reader c = some (a, d) → ∀ left, after d.rest left →
    ∃ other, Passed c d other ∧ least a ≤ other.length ∧ before c.rest (other ++ left) ∧
      ((other ++ left).length < most → ∀ i p tokens, ∃ b tokens',
        others i ⟨p, other ++ left, tokens⟩ = some (b, ⟨p + other.length, left, tokens'⟩) ∧
          alike a b)

namespace Passed

variable {c d e : Cursor} {other more rest left : List Char}

theorem refl (c : Cursor) : Passed c c [] :=
  ⟨[], [], rfl, rfl, rfl, .nil _⟩

theorem trans (first : Passed c d other) (second : Passed d e more) :
    Passed c e (other ++ more) := by
  obtain ⟨text, tokens, split, position, kept, spacing⟩ := first
  obtain ⟨text', tokens', split', position', kept', spacing'⟩ := second
  refine ⟨text ++ text', tokens ++ tokens', ?_, ?_, ?_, spacing.append ?_⟩
  · rw [split, split', List.append_assoc]
  · rw [position', position, List.length_append, Nat.add_assoc]
  · rw [kept', kept, List.reverse_append, List.append_assoc]
  · rwa [← position]

theorem plain {text : List Char} {tokens : List Token} (split : c.rest = text ++ rest)
    (plain : ∀ token ∈ tokens, token.isPlain = true) :
    Passed c ⟨c.position + text.length, rest, tokens.reverse ++ c.tokens⟩ text :=
  ⟨text, tokens, split, rfl, rfl, .same _ _ plain⟩

theorem char {p : Nat} {tokens : List Token} (a : Char) (rest : List Char) :
    Passed ⟨p, a :: rest, tokens⟩ ⟨p + 1, rest, tokens⟩ [a] :=
  @plain ⟨p, a :: rest, tokens⟩ rest [a] [] rfl (by simp)

theorem comment {p : Nat} {text rest : List Char} {tokens : List Token}
    (opens : OpensComment text) :
    Passed ⟨p, text ++ rest, tokens⟩
      ⟨p + text.length, rest, .comment ⟨p, text⟩ :: tokens⟩ [' '] := by
  refine ⟨text, [.comment ⟨p, text⟩], rfl, rfl, rfl, ?_⟩
  have spacing : Spacing p (text ++ []) [.comment ⟨p, text⟩] (' ' :: []) :=
    @Spacing.comment ⟨p, text⟩ [] [] [] opens (.nil _)
  rwa [List.append_nil] at spacing

theorem alongside (passed : Passed c d other) (after : Alongside d.rest left) :
    Alongside c.rest (other ++ left) := by
  obtain ⟨text, tokens, split, -, -, spacing⟩ := passed
  rw [split]
  exact spacing.alongside after

end Passed

namespace Mirrors

variable {α β ι κ : Type} {before middle after : Beside} {least : α → Nat} {least' : β → Nat}
  {most : Nat} {reader : Reader α} {others : ι → Reader α} {alike : α → α → Prop}
  {alike' : β → β → Prop} {c : Cursor}

theorem mono {weaker : α → Nat} {fewer : Nat} {alike' : α → α → Prop}
    (mirrors : Mirrors before after least most reader others alike c) (most_le : fewer ≤ most)
    (least_le : ∀ a, weaker a ≤ least a) (stronger : ∀ a b, alike a b → alike' a b) :
    Mirrors before after weaker fewer reader others alike' c := by
  intro a d run left beside
  obtain ⟨other, passed, long, here, image⟩ := mirrors a d run left beside
  refine ⟨other, passed, Nat.le_trans (least_le a) long, here, fun short i p tokens => ?_⟩
  obtain ⟨b, tokens', run', like⟩ := image (Nat.lt_of_lt_of_le short most_le) i p tokens
  exact ⟨b, tokens', run', stronger a b like⟩

theorem vacuous {others' : κ → Reader α}
    (mirrors : Mirrors before after least most reader others alike c)
    (brief : ∀ a, most ≤ least a) :
    Mirrors before after least most reader others' alike c := by
  intro a d run left beside
  obtain ⟨other, passed, long, here, -⟩ := mirrors a d run left beside
  refine ⟨other, passed, long, here, fun short => ?_⟩
  have total := brief a
  rw [List.length_append] at short
  omega

theorem reindex (mirrors : Mirrors before after least most reader others alike c) (f : κ → ι) :
    Mirrors before after least most reader (fun k => others (f k)) alike c := by
  intro a d run left beside
  obtain ⟨other, passed, long, here, image⟩ := mirrors a d run left beside
  exact ⟨other, passed, long, here, fun short k => image short (f k)⟩

theorem congr (others : ι → Reader α) {others' : ι → Reader α}
    (mirrors : Mirrors before after least most reader others alike c)
    (same : ∀ i, others' i = others i) :
    Mirrors before after least most reader others' alike c := by
  rwa [show others' = others from funext same]

theorem of_run {reader' : Reader α} (others' : ι → Reader α)
    (mirrors : Mirrors before after least most reader' others' alike c)
    (run : reader c = reader' c)
    (image : ∀ text, before c.rest text → ∀ i p tokens,
      others i ⟨p, text, tokens⟩ = others' i ⟨p, text, tokens⟩) :
    Mirrors before after least most reader others alike c := by
  intro a d taken left beside
  rw [run] at taken
  obtain ⟨other, passed, long, here, images⟩ := mirrors a d taken left beside
  refine ⟨other, passed, long, here, fun short i p tokens => ?_⟩
  rw [image _ here i p tokens]
  exact images short i p tokens

/-- One reader after the other. What the second one's images read may hang on what the first one's
images gave, but not what they leave. -/
theorem bind {next : α → Reader β} {next' : ι → α → Reader β}
    (first : Mirrors before middle least most reader others alike c)
    (later : ∀ a d, reader c = some (a, d) →
      Mirrors middle after (fun b => least' b - least a) (most - least a) (next a)
        (fun i : ι × { b // alike a b } => next' i.1 i.2.1) alike' d) :
    Mirrors before after least' most (reader >>= next) (fun i => others i >>= next' i) alike' c := by
  intro b e run left beside
  change (reader c).bind _ = some (b, e) at run
  obtain ⟨⟨a, d⟩, taken, run⟩ := Option.bind_eq_some_iff.mp run
  obtain ⟨more, passed', long', there, image'⟩ := later a d taken b e run left beside
  obtain ⟨other, passed, long, here, image⟩ := first a d taken (more ++ left) there
  refine ⟨other ++ more, passed.trans passed', ?_, ?_, fun short i p tokens => ?_⟩
  · have total : least' b - least a ≤ more.length := long'
    rw [List.length_append]
    omega
  · rwa [List.append_assoc]
  · rw [List.append_assoc] at short ⊢
    obtain ⟨a', tokens', run', like⟩ := image short i p tokens
    rw [List.length_append] at short
    obtain ⟨b', tokens'', run'', like'⟩ :=
      image' (by omega) (i, ⟨a', like⟩) (p + other.length) tokens'
    refine ⟨b', tokens'', ?_, like'⟩
    show (others i _).bind _ = _
    rw [run', List.length_append, ← Nat.add_assoc]
    exact run''

theorem bindSame {next : α → Reader β} {next' : ι → α → Reader β}
    (first : Mirrors before middle least most reader others alike c)
    (later : ∀ a d, reader c = some (a, d) → (∀ i b, alike a b → next' i b = next' i a) ∧
      Mirrors middle after (fun b => least' b - least a) (most - least a) (next a)
        (fun i => next' i a) alike' d) :
    Mirrors before after least' most (reader >>= next) (fun i => others i >>= next' i) alike' c :=
  first.bind fun a d run =>
    congr _ ((later a d run).2.reindex Prod.fst) fun i => (later a d run).1 i.1 i.2.1 i.2.2

theorem bindEq {next : α → Reader β} {next' : ι → α → Reader β}
    (first : Mirrors before middle least most reader others Eq c)
    (later : ∀ a d, reader c = some (a, d) →
      Mirrors middle after (fun b => least' b - least a) (most - least a) (next a)
        (fun i => next' i a) alike' d) :
    Mirrors before after least' most (reader >>= next) (fun i => others i >>= next' i) alike' c :=
  first.bindSame fun a d run => ⟨fun _ _ same => by rw [same], later a d run⟩

theorem andThen {next : α → Reader β} {next' : ι → Reader β}
    (first : Mirrors before middle least most reader others alike c)
    (later : ∀ a d, reader c = some (a, d) →
      Mirrors middle after (fun b => least' b - least a) (most - least a) (next a)
        next' alike' d) :
    Mirrors before after least' most (reader >>= next) (fun i => others i >>= fun _ => next' i)
      alike' c :=
  first.bind fun a d run => (later a d run).reindex Prod.fst

theorem pure {a : α} {b : ι → α} (like : ∀ i, alike a (b i)) (none : least a = 0) :
    Mirrors before before least most (Pure.pure a : Reader α) (fun i => Pure.pure (b i)) alike c := by
  rintro _ _ ⟨⟩ left beside
  exact ⟨[], .refl c, Nat.le_of_eq none, beside, fun _ i p tokens => ⟨b i, tokens, rfl, like i⟩⟩

theorem failure :
    Mirrors before after least most (Alternative.failure : Reader α) others alike c := by
  rintro a d ⟨⟩

theorem ite {condition : Prop} [Decidable condition] {first second : Reader α}
    {first' second' : ι → Reader α}
    (yes : condition → Mirrors before after least most first first' alike c)
    (no : ¬ condition → Mirrors before after least most second second' alike c) :
    Mirrors before after least most (if condition then first else second)
      (fun i => if condition then first' i else second' i) alike c := by
  by_cases holds : condition
  · simpa only [if_pos holds] using yes holds
  · simpa only [if_neg holds] using no holds

end Mirrors

/-! What the readers of single tokens say about where they ended. -/

section Runs

variable {c d : Cursor}

theorem Reader.get_run {β : Type} (next : Cursor → Reader β) (c : Cursor) :
    (get >>= next : Reader β) c = next c c :=
  rfl

theorem Reader.bind_run {α β : Type} {reader : Reader α} {next : α → Reader β} {b : β}
    (run : (reader >>= next) c = some (b, d)) :
    ∃ a e, reader c = some (a, e) ∧ next a e = some (b, d) := by
  change (reader c).bind _ = some (b, d) at run
  obtain ⟨⟨a, e⟩, taken, run⟩ := Option.bind_eq_some_iff.mp run
  exact ⟨a, e, taken, run⟩

theorem Reader.repeated_run {α : Type} {step : Reader (Option α)} {across : Cursor → Cursor → Prop}
    {all : α → Prop}
    (each : ∀ c found d, step c = some (found, d) → (∀ a ∈ found, all a) → across c d)
    (trans : ∀ {c d e}, across c d → across d e → across c e) {bound : Nat} {list : List α}
    (run : Reading.repeated bound step c = some (list, d)) (every : ∀ a ∈ list, all a) :
    across c d := by
  induction bound generalizing c list with
  | zero => cases run
  | succ bound ih =>
    obtain ⟨found, there, taken, run⟩ := Reader.bind_run run
    cases found with
    | none =>
      cases run
      exact each c _ d taken (by simp)
    | some a =>
      obtain ⟨others, finish, later, run⟩ := Reader.bind_run run
      cases run
      obtain ⟨here, rest⟩ := List.forall_mem_cons.mp every
      exact trans (each c _ there taken (by simpa using here)) (ih later rest)

theorem Reader.skipGap_run {u : Unit} (run : Reader.skipGap c = some (u, d)) :
    skipGapFrom .blank c.position c.tokens c.rest = some d := by
  obtain ⟨e, skipped, same⟩ := Option.bind_eq_some_iff.mp run
  cases same
  exact skipped

theorem Reader.mark_run {a : Cursor} (run : Reader.mark c = some (a, d)) :
    a = d ∧ Solid d.rest := by
  obtain ⟨⟨u, e⟩, skipped, same⟩ := Option.bind_eq_some_iff.mp run
  cases same
  exact ⟨rfl, skipGapFrom_solid (Reader.skipGap_run skipped)⟩

theorem Reader.mark_leads {a : Cursor} (run : Reader.mark c = some (a, d)) :
    Leads c.rest d.rest := by
  obtain ⟨⟨u, e⟩, skipped, same⟩ := Option.bind_eq_some_iff.mp run
  cases same
  exact .of_skipGapFrom (Reader.skipGap_run skipped)

theorem Reader.ahead_run {text : List Char} (run : Reader.ahead c = some (text, d)) :
    d = c ∧ Leads c.rest text := by
  obtain ⟨⟨u, e⟩, skipped, same⟩ := Option.bind_eq_some_iff.mp run
  cases same
  exact ⟨rfl, .of_skipGapFrom (Reader.skipGap_run skipped)⟩

end Runs

/-- The state of a gap and what was read of a comment in it. -/
def GapPassed (p : Nat) (text : List Char) (tokens : List Token) (d : Cursor) : Gap → Prop
  | .blank => ∃ blanks, (∀ c ∈ blanks, isBlank c = true) ∧ Passed ⟨p, text, tokens⟩ d blanks
  | .line start read | .block start read =>
      p = start + read.length → OpensComment read.reverse →
        ∃ blanks, (∀ c ∈ blanks, isBlank c = true) ∧
          Passed ⟨start, read.reverse ++ text, tokens⟩ d (' ' :: blanks)

/-- Where comments are spaces, a gap has nothing but blanks. -/
theorem skipGapFrom_gapPassed (gap : Gap) (p : Nat) (tokens : List Token) (text : List Char)
    {d : Cursor} (skipped : skipGapFrom gap p tokens text = some d) :
    GapPassed p text tokens d gap := by
  have comment {start p : Nat} {read rest : List Char} {tokens : List Token}
      (place : p = start + read.length) (opens : OpensComment read.reverse) :
      Passed ⟨start, read.reverse ++ rest, tokens⟩
        ⟨p, rest, .comment ⟨start, read.reverse⟩ :: tokens⟩ [' '] := by
    have passed := @Passed.comment start read.reverse rest tokens opens
    rwa [List.length_reverse, ← place] at passed
  have inside {start p : Nat} {read rest : List Char} {tokens : List Token} {c : Char}
      (later : p + 1 = start + (c :: read).length → OpensComment (c :: read).reverse →
        ∃ blanks, (∀ c ∈ blanks, isBlank c = true) ∧
          Passed ⟨start, (c :: read).reverse ++ rest, tokens⟩ d (' ' :: blanks))
      (place : p = start + read.length) (opens : OpensComment read.reverse) :
      ∃ blanks, (∀ c ∈ blanks, isBlank c = true) ∧
        Passed ⟨start, read.reverse ++ c :: rest, tokens⟩ d (' ' :: blanks) := by
    rw [List.reverse_cons, List.append_assoc] at later
    exact later (by rw [place, List.length_cons, Nat.add_assoc]) (opens.append [c])
  have blank_cons {c : Char} {blanks : List Char} (first : isBlank c = true)
      (blank : ∀ c ∈ blanks, isBlank c = true) : ∀ d ∈ c :: blanks, isBlank d = true :=
    List.forall_mem_cons.mpr ⟨first, blank⟩
  fun_induction skipGapFrom gap p tokens text with
  | case1 p tokens rest ih =>
    obtain ⟨blanks, blank, passed⟩ := ih skipped rfl ⟨['#'], by simp, List.prefix_rfl⟩
    exact ⟨' ' :: blanks, blank_cons rfl blank, passed⟩
  | case2 p tokens rest ih =>
    obtain ⟨blanks, blank, passed⟩ := ih skipped rfl ⟨['/', '/'], by simp, List.prefix_rfl⟩
    exact ⟨' ' :: blanks, blank_cons rfl blank, passed⟩
  | case3 p tokens rest ih =>
    obtain ⟨blanks, blank, passed⟩ := ih skipped rfl ⟨['/', '*'], by simp, List.prefix_rfl⟩
    exact ⟨' ' :: blanks, blank_cons rfl blank, passed⟩
  | case4 p tokens c rest _ _ _ blank ih =>
    obtain ⟨blanks, blank', passed⟩ := ih skipped
    exact ⟨c :: blanks, blank_cons blank blank', (Passed.char c rest).trans passed⟩
  | case5 | case6 =>
    cases skipped
    exact ⟨[], by simp, .refl _⟩
  | case7 start read p tokens =>
    cases skipped
    exact fun place opens => ⟨[], by simp, comment place opens⟩
  | case8 start read p tokens rest ih =>
    intro place opens
    obtain ⟨blanks, blank, passed⟩ := ih skipped
    exact ⟨'\n' :: blanks, blank_cons rfl blank,
      (comment place opens).trans ((Passed.char '\n' rest).trans passed)⟩
  | case9 start read p tokens c rest feed ih => exact inside (ih skipped)
  | case10 => cases skipped
  | case11 start read p tokens rest ih =>
    intro place opens
    obtain ⟨blanks, blank, passed⟩ := ih skipped
    have whole : ('/' :: '*' :: read).reverse ++ rest = read.reverse ++ '*' :: '/' :: rest := by
      simp
    have ended := @comment start (p + 2) ('/' :: '*' :: read) rest tokens
      (by rw [place, List.length_cons, List.length_cons, Nat.add_assoc]) (by simpa using opens.append _)
    rw [whole] at ended
    exact ⟨blanks, blank, ended.trans passed⟩
  | case12 start read p tokens c rest ends ih => exact inside (ih skipped)

/-- A text that is read leaves the texts after it alongside each other. -/
def Beside.Sound (after : Beside) : Prop :=
  ∀ text other, after text other → Alongside text other

theorem Level.sound : Beside.Sound Level := fun _ _ => Level.alongside

theorem LevelAhead.sound : Beside.Sound LevelAhead := fun _ _ => LevelAhead.alongside

namespace Mirrors

variable {ι : Type} {before after : Beside} {most : Nat} {c : Cursor}

theorem skipGap :
    Mirrors LevelAhead Level (fun _ => 0) most Reader.skipGap (fun _ : ι => Reader.skipGap)
      (fun _ _ => True) c := by
  intro a d run left level
  have skipped := Reader.skipGap_run run
  have solid := skipGapFrom_solid skipped
  obtain ⟨blanks, blank, passed⟩ := skipGapFrom_gapPassed .blank _ _ _ skipped
  have image (p : Nat) (tokens : List Token) :=
    skipGapFrom_blanks blanks blank p tokens (level.solid solid)
  refine ⟨blanks, passed, Nat.zero_le _, ⟨passed.alongside level.alongside, d.rest, left,
    .of_skipGapFrom skipped, fun p tokens => ⟨_, image p tokens, rfl⟩, level⟩, ?_⟩
  exact fun _ _ p tokens => ⟨(), tokens, by simp [Reader.skipGap, image], trivial⟩

theorem get : Mirrors before before (fun _ => 0) most MonadState.get
    (fun _ : ι => (MonadState.get : Reader Cursor)) (fun a b => before a.rest b.rest) c := by
  rintro _ _ ⟨⟩ left beside
  exact ⟨[], .refl c, Nat.le_refl 0, beside, fun _ _ p tokens => ⟨_, tokens, rfl, beside⟩⟩

theorem level {α : Type} {least : α → Nat} {reader : Reader α} {others : ι → Reader α}
    {alike : α → α → Prop} (sound : after.Sound)
    (mirrors : Mirrors LevelAhead after least most reader others alike c) (solid : Solid c.rest)
    (long : ∀ a, 1 ≤ least a) : Mirrors Level after least most reader others alike c := by
  intro a d run left beside
  obtain ⟨other, passed, enough, -, image⟩ := mirrors a d run left beside
  refine ⟨other, passed, enough, ?_, image⟩
  have filled : other ≠ [] := List.length_pos_iff.mp (Nat.lt_of_lt_of_le (long a) enough)
  obtain ⟨text, tokens, split, -, -, spacing⟩ := passed
  rw [split] at solid ⊢
  exact spacing.level solid filled (sound _ _ beside)

theorem mark : Mirrors LevelAhead Level (fun _ => 0) most Reader.mark (fun _ : ι => Reader.mark)
    (fun a b => Level a.rest b.rest) c :=
  skipGap.andThen fun _ _ _ => get

theorem ahead : Mirrors LevelAhead LevelAhead (fun _ => 0) most Reader.ahead
    (fun _ : ι => Reader.ahead) Level c := by
  intro text d run left beside
  obtain ⟨rfl, leads⟩ := Reader.ahead_run run
  obtain ⟨here, there, leads', reached, level⟩ := beside.level
  obtain rfl := leads'.eq leads
  refine ⟨[], .refl d, Nat.le_refl 0, beside, fun _ _ p tokens => ?_⟩
  obtain ⟨e, skipped, rfl⟩ := reached p tokens
  have past : Reader.skipGap ⟨p, left, tokens⟩ = some ((), e) := by simp [Reader.skipGap, skipped]
  refine ⟨e.rest, tokens, ?_, level⟩
  show (Reader.skipGap ⟨p, left, tokens⟩).bind _ = _
  rw [past]
  rfl

theorem piece {α : Type} {least : α → Nat} {reader : Reader α} {others : ι → Reader α}
    {alike : α → α → Prop} (a : α) (text : List Char) (tokens : List Token) {rest : List Char}
    (split : c.rest = text ++ rest)
    (run : reader c = some (a, ⟨c.position + text.length, rest, tokens.reverse ++ c.tokens⟩))
    (plain : ∀ token ∈ tokens, token.isPlain = true) (long : least a ≤ text.length)
    (past : ∀ left, after rest left → before c.rest (text ++ left))
    (image : ∀ left, after rest left → ∀ i p tokens, ∃ b tokens',
      others i ⟨p, text ++ left, tokens⟩ = some (b, ⟨p + text.length, left, tokens'⟩) ∧
        alike a b) :
    Mirrors before after least most reader others alike c := by
  intro b d same left beside
  rw [run] at same
  cases same
  exact ⟨text, .plain split plain, long, past left beside, fun _ => image left beside⟩

theorem take (text : List Char) {rest : List Char} (split : c.rest = text ++ rest)
    (past : ∀ left, after rest left → before c.rest (text ++ left)) :
    Mirrors before after (fun _ => text.length) most (Reader.take text.length)
      (fun _ : ι => Reader.take text.length) (fun _ _ => True) c := by
  refine piece () text [] split ?_ (by simp) (Nat.le_refl _) past fun left _ _ p tokens =>
    ⟨(), tokens, ?_, trivial⟩
  · simp [Reader.take, split]
  · simp [Reader.take]

theorem token {make : Slice → Token} (plain : ∀ slice, (make slice).isPlain = true)
    (text : List Char) {rest : List Char} (split : c.rest = text ++ rest)
    (past : ∀ left, after rest left → before c.rest (text ++ left)) :
    Mirrors before after (fun _ => text.length) most (Reader.token make text.length)
      (fun _ : ι => Reader.token make text.length) (fun a b => a.text = b.text) c := by
  refine piece ⟨c.position, text⟩ text [make ⟨c.position, text⟩] split ?_ (by simpa using plain _)
    (Nat.le_refl _) past fun left _ _ p tokens =>
      ⟨⟨p, text⟩, make ⟨p, text⟩ :: tokens, ?_, rfl⟩
  · simp [Reader.token, split]
  · simp [Reader.token]

theorem keep {token : Token} (plain : token.isPlain = true) {token' : ι → Token} :
    Mirrors before before (fun _ => 0) most (Reader.keep token) (fun i => Reader.keep (token' i))
      (fun _ _ => True) c :=
  piece () [] [token] rfl rfl (by simpa using plain) (Nat.le_refl _) (fun _ => id)
    fun _ _ i _ tokens => ⟨(), token' i :: tokens, rfl, trivial⟩

theorem sliceFrom {origin : Cursor} {origin' : ι → Cursor} :
    Mirrors before before (fun _ => 0) most (Reader.sliceFrom origin)
      (fun i => Reader.sliceFrom (origin' i)) (fun _ _ => True) c := by
  rintro _ _ ⟨⟩ left beside
  exact ⟨[], .refl c, Nat.le_refl _, beside, fun _ i p tokens => ⟨_, tokens, rfl, trivial⟩⟩

end Mirrors

theorem Level.append {text rest left : List Char} (filled : text ≠ [])
    (later : Alongside rest left) : Level (text ++ rest) (text ++ left) := by
  cases text with
  | nil => exact absurd rfl filled
  | cons c text => exact .cons c (later.append text)

namespace Mirrors

variable {α ι : Type} {before after : Beside} {most : Nat} {c : Cursor}

theorem takeLevel (sound : after.Sound) (text : List Char) {rest : List Char}
    (split : c.rest = text ++ rest) (filled : text ≠ []) :
    Mirrors Level after (fun _ => text.length) most (Reader.take text.length)
      (fun _ : ι => Reader.take text.length) (fun _ _ => True) c :=
  take text split fun _ beside => split ▸ .append filled (sound _ _ beside)

theorem tokenLevel (sound : after.Sound) {make : Slice → Token}
    (plain : ∀ slice, (make slice).isPlain = true) (text : List Char) {rest : List Char}
    (split : c.rest = text ++ rest) (filled : text ≠ []) :
    Mirrors Level after (fun _ => text.length) most (Reader.token make text.length)
      (fun _ : ι => Reader.token make text.length) (fun a b => a.text = b.text) c :=
  token plain text split fun _ beside => split ▸ .append filled (sound _ _ beside)

theorem symbol (sound : after.Sound) {sign : List Char} (filled : sign ≠ [])
    (plain : ∀ c ∈ sign.tail, c ≠ '#' ∧ c ≠ '/' ∧ c ≠ ' ') :
    Mirrors LevelAhead after (fun _ => sign.length) most (Reader.symbol sign)
      (fun _ : ι => Reader.symbol sign) (fun _ _ => True) c := by
  refine skipGap.andThen fun _ here _ => get.bindSame ?_
  rintro _ _ ⟨⟩
  refine ⟨fun _ b level => by rw [level.isPrefixOf_eq plain], ite (fun starts => ?_) fun _ => failure⟩
  obtain ⟨rest, split⟩ := List.isPrefixOf_iff_prefix.mp starts
  exact takeLevel sound sign split.symm filled

theorem optional {sign : List Char} (filled : sign ≠ [])
    (plain : ∀ c ∈ sign.tail, c ≠ '#' ∧ c ≠ '/' ∧ c ≠ ' ') :
    Mirrors LevelAhead LevelAhead Bool.toNat most (Reader.optional? sign)
      (fun _ : ι => Reader.optional? sign) Eq c := by
  refine ahead.bindSame fun text d run => ⟨fun _ b level => by rw [level.isPrefixOf_eq plain], ?_⟩
  refine ite (fun _ => ?_) fun _ => pure (fun _ => rfl) rfl
  refine (symbol LevelAhead.sound filled plain).andThen fun _ _ _ => pure (fun _ => rfl) ?_
  have long := List.length_pos_iff.mpr filled
  show 1 - 0 - sign.length = 0
  omega

theorem name (sound : after.Sound) :
    Mirrors LevelAhead after (fun _ => 1) most Reader.name (fun _ : ι => Reader.name)
      (fun a b => a.text = b.text) c := by
  refine mark.bindSame fun start d run =>
    ⟨fun _ b level => by rw [level.alongside.name?_eq], ?_⟩
  obtain ⟨rfl, -⟩ := Reader.mark_run run
  cases found : name? start.rest with
  | none => exact failure
  | some word =>
    obtain ⟨c, tail, rest, split, rfl, -⟩ := name?_shape found
    refine (tokenLevel sound (fun _ => rfl) _ split (by simp)).mono (Nat.le_refl _) ?_ fun _ _ => id
    exact fun _ => Nat.le_add_left 1 tail.length

theorem word (sound : after.Sound) (expected : List Char) :
    Mirrors LevelAhead after (fun _ => 1) most (Reader.word expected)
      (fun _ : ι => Reader.word expected) (fun _ _ => True) c :=
  (name sound).bindSame fun a _ _ => ⟨fun _ b same => by rw [same],
    ite (fun _ => pure (fun _ => trivial) rfl) fun _ => failure⟩

theorem wordAhead (expected : List Char) :
    Mirrors LevelAhead LevelAhead (fun _ => 0) most (Reader.wordAhead expected)
      (fun _ : ι => Reader.wordAhead expected) Eq c :=
  ahead.bind fun text _ _ => pure (fun i => by rw [i.2.2.alongside.name?_eq]) rfl

/-- A loop whose steps each go past something. -/
theorem repeated {step step' : Reader (Option α)} {alike : α → α → Prop}
    (each : ∀ {κ : Type} fewer c, fewer ≤ most →
      Mirrors before before (fun found => found.elim 0 fun _ => 1) fewer step
        (fun _ : κ => step') (Option.Rel alike) c)
    (bound : Nat) {bound' : Nat} (enough : most ≤ bound') :
    Mirrors before before (fun _ => 0) most (Reading.repeated bound step)
      (fun _ : ι => Reading.repeated bound' step') (List.Forall₂ alike) c := by
  induction bound generalizing ι bound' most c with
  | zero => exact failure
  | succ bound ih =>
    have main (bound' : Nat) (enough : most ≤ bound' + 1) :
        Mirrors before before (fun _ => 0) most (Reading.repeated (bound + 1) step)
          (fun _ : ι => Reading.repeated (bound' + 1) step') (List.Forall₂ alike) c := by
      refine (each most c (Nat.le_refl _)).bind fun found d _ => ?_
      cases found with
      | none =>
        refine congr (fun _ => Pure.pure []) (pure (fun _ => .nil) rfl) fun i => ?_
        obtain ⟨i, _, _ | _⟩ := i
        rfl
      | some a =>
        refine congr (fun i => Reading.repeated bound' step' >>= fun others =>
          Pure.pure (i.2.1.getD a :: others)) ?_ fun i => ?_
        · have spent : most - 1 ≤ bound' := by omega
          refine (ih (fun fewer c le => each fewer c (Nat.le_trans le (Nat.sub_le _ _)))
            spent).bind fun list _ _ => pure (fun i => ?_) rfl
          obtain ⟨⟨i, _, _ | _⟩, others, like⟩ := i
          exact .cons ‹_› like
        · obtain ⟨i, _, _ | _⟩ := i
          rfl
    cases bound' with
    | zero =>
      obtain rfl : most = 0 := Nat.le_zero.mp enough
      exact (main 0 (Nat.zero_le _)).vacuous fun _ => Nat.zero_le _
    | succ bound' => exact main bound' enough

end Mirrors

end TerraDoc.Hcl
