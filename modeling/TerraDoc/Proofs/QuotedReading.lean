import TerraDoc.Proofs.QuotedEscapes
import TerraDoc.Proofs.TemplateMirror

namespace TerraDoc.Hcl

namespace Quoted

/-- The units between quotes as the grammar reads them, where any digits make a code. -/
inductive ReadUnit : List Char → Prop where
  | plain {c : Char} (other : c ≠ '\\') : ReadUnit [c]
  | short {letter : Char} (known : letter ∈ ['n', 'r', 't', '"', '\\']) : ReadUnit ['\\', letter]
  | code {digits : List Char} (four : digits.length = 4)
      (hex : ∀ c ∈ digits, isHexDigit c = true) : ReadUnit ('\\' :: 'u' :: digits)
  | longCode {digits : List Char} (eight : digits.length = 8)
      (hex : ∀ c ∈ digits, isHexDigit c = true) : ReadUnit ('\\' :: 'U' :: digits)

/-- A text made of the units of the grammar. -/
inductive ReadText : List Char → Prop where
  | nil : ReadText []
  | unit {unit rest : List Char} (first : ReadUnit unit) (later : ReadText rest) :
      ReadText (unit ++ rest)

namespace ReadText

theorem append {text more : List Char} (first : ReadText text) (later : ReadText more) :
    ReadText (text ++ more) := by
  induction first with
  | nil => exact later
  | unit first _ ih =>
    rw [List.append_assoc]
    exact .unit first ih

theorem of_unit {unit : List Char} (read : ReadUnit unit) : ReadText unit := by
  rw [← List.append_nil unit]
  exact .unit read .nil

theorem of_plain {text : List Char} (plain : ∀ c ∈ text, c ≠ '\\') : ReadText text := by
  induction text with
  | nil => exact .nil
  | cons c rest ih =>
    obtain ⟨other, plain⟩ := List.forall_mem_cons.mp plain
    exact .unit (.plain other) (ih plain)

end ReadText

theorem HexSpells.of_coded? {digits : List Char} {c : Char} (long : 2 ≤ digits.length)
    (hex : ∀ c ∈ digits, isHexDigit c = true) (coded : coded? digits = some c) :
    HexSpells digits c.toNat := by
  obtain spells | ⟨rest, rfl, -⟩ := (coded?_eq_some_iff long).mp coded
  · exact spells
  · exact absurd (hex '+' List.mem_cons_self) (by decide)

theorem unescape_uncoded {digits : List Char} (four : digits.length = 4)
    (uncoded : coded? digits = none) (rest : List Char) :
    unescape ('\\' :: 'u' :: (digits ++ rest)) = .error .code := by
  match digits, four with
  | [_, _, _, _], _ => simp [unescape, uncoded]

theorem unescape_longUncoded {digits : List Char} (eight : digits.length = 8)
    (uncoded : coded? digits = none) (rest : List Char) :
    unescape ('\\' :: 'U' :: (digits ++ rest)) = .error .code := by
  match digits, eight with
  | [_, _, _, _, _, _, _, _], _ => simp [unescape, uncoded]

/-- A unit that was read is one that is decoded, or a code of no character. -/
theorem ReadUnit.unescape_cases {unit : List Char} (read : ReadUnit unit) (rest : List Char) :
    (EscapeUnit false unit ∧ ∃ f, unescape (unit ++ rest) = f <$> unescape rest) ∨
      unescape (unit ++ rest) = .error .code := by
  cases read with
  | plain other => exact .inl ⟨.plain other, unescape_plain_map other rest⟩
  | short known =>
    obtain ⟨c, short⟩ := short?_of_mem known
    exact .inl ⟨.short known, _, unescape_letter short rest⟩
  | @code digits four hex =>
    cases coded : coded? digits with
    | some c =>
      have spells := HexSpells.of_coded? (by omega) hex coded
      exact .inl ⟨.code four spells, _, unescape_code four coded rest⟩
    | none => exact .inr (unescape_uncoded four coded rest)
  | @longCode digits eight hex =>
    cases coded : coded? digits with
    | some c =>
      have spells := HexSpells.of_coded? (by omega) hex coded
      exact .inl ⟨.longCode eight spells, _, unescape_longCode eight coded rest⟩
    | none => exact .inr (unescape_longUncoded eight coded rest)

theorem ReadText.unescape_cases {text : List Char} (read : ReadText text) :
    WellFormed false text ∨ unescape text = .error .code := by
  induction read with
  | nil => exact .inl .nil
  | @unit unit rest first _ ih =>
    obtain ⟨strict, f, same⟩ | fails := first.unescape_cases rest
    · refine ih.imp (.unit strict) fun fails => ?_
      rw [same, fails]
      rfl
    · exact .inr fails

/-- What was read is decoded exactly if it is made of units whose codes name characters, and the
only error is about a code. -/
theorem ReadText.decode_cases {inner : List Char} (read : ReadText inner) :
    (WellFormed false inner ∧ ∃ text, decode ('"' :: (inner ++ ['"'])) = .ok text) ∨
      ¬ WellFormed false inner ∧ decode ('"' :: (inner ++ ['"'])) =
        .error (.unicodeEscape (String.ofList ('"' :: (inner ++ ['"'])))) := by
  obtain formed | fails := read.unescape_cases
  · obtain ⟨text, unescaped⟩ := formed.unescape_ok
    exact .inl ⟨formed, text, decode_quotes unescaped⟩
  · refine .inr ⟨fun formed => ?_, ?_⟩
    · obtain ⟨text, unescaped⟩ := formed.unescape_ok
      cases fails.symm.trans unescaped
    · rw [decode, trim_quotes, inner?_eq_some_iff.mpr rfl]
      simp only [fails]

end Quoted

open Quoted

/-- The escapes of the grammar are units. -/
theorem Quoted.ReadUnit.of_escapeLength? {after : List Char} {length : Nat}
    (found : escapeLength? after = some length) :
    ∃ unit rest, '\\' :: after = unit ++ rest ∧ unit.length = length + 1 ∧ ReadUnit unit := by
  unfold escapeLength? at found
  split at found
  case h_6 rest =>
    split at found
    · cases found
      obtain ⟨four, hex⟩ := hexDigits_of_filter ‹_›
      refine ⟨'\\' :: 'u' :: rest.take 4, rest.drop 4, ?_, by simp [four], .code four hex⟩
      rw [List.cons_append, List.cons_append, List.take_append_drop]
    · cases found
  case h_7 rest =>
    split at found
    · cases found
      obtain ⟨eight, hex⟩ := hexDigits_of_filter ‹_›
      refine ⟨'\\' :: 'U' :: rest.take 8, rest.drop 8, ?_, by simp [eight], .longCode eight hex⟩
      rw [List.cons_append, List.cons_append, List.take_append_drop]
    · cases found
  case h_8 => cases found
  all_goals
    cases found
    exact ⟨_ :: [_], _, rfl, rfl, .short (by simp)⟩

/-- Whatever a reader gives from a cursor, and wherever it ends, something holds. -/
def Gives {α : Type} (reader : Reader α) (c : Cursor) (good : α → Cursor → Prop) : Prop :=
  ∀ a d, reader c = some (a, d) → good a d

namespace Gives

variable {α β : Type} {reader : Reader α} {c : Cursor} {good better : α → Cursor → Prop}

theorem any : Gives reader c fun _ _ => True :=
  fun _ _ _ => trivial

theorem mono (gives : Gives reader c good) (stronger : ∀ a d, good a d → better a d) :
    Gives reader c better :=
  fun a d run => stronger a d (gives a d run)

theorem bind {next : α → Reader β} {after : β → Cursor → Prop} (first : Gives reader c good)
    (later : ∀ a d, good a d → Gives (next a) d after) : Gives (reader >>= next) c after := by
  intro b e run
  obtain ⟨a, d, taken, run⟩ := Reader.bind_run run
  exact later a d (first a d taken) b e run

theorem pure {a : α} (holds : good a c) : Gives (Pure.pure a : Reader α) c good := by
  rintro _ _ ⟨⟩
  exact holds

theorem failure : Gives (Alternative.failure : Reader α) c good := by
  rintro a d ⟨⟩

theorem never {next : β → Reader α} :
    Gives ((Alternative.failure : Reader β) >>= next) c good := by
  rintro a d ⟨⟩

theorem and (first : Gives reader c good) (second : Gives reader c better) :
    Gives reader c fun a d => good a d ∧ better a d :=
  fun a d run => ⟨first a d run, second a d run⟩

theorem after {next : α → Reader β} {after : β → Cursor → Prop}
    (later : ∀ a d, Gives (next a) d after) : Gives (reader >>= next) c after :=
  bind any fun a d _ => later a d

theorem get {next : Cursor → Reader α} (gives : Gives (next c) c good) :
    Gives (MonadState.get >>= next) c good :=
  gives

theorem mark {next : Cursor → Reader α} (gives : ∀ d, Gives (next d) d good) :
    Gives (Reader.mark >>= next) c good := by
  intro a e run
  obtain ⟨start, d, marked, run⟩ := Reader.bind_run run
  obtain ⟨rfl, -⟩ := Reader.mark_run marked
  exact gives start a e run

theorem take {next : Unit → Reader α} {count : Nat}
    (gives : Gives (next ()) ⟨c.position + count, c.rest.drop count, c.tokens⟩ good) :
    Gives (Reader.take count >>= next) c good :=
  gives

theorem across {step : Reader (Option α)} {across : Cursor → Cursor → Prop} {all : α → Prop}
    (each : ∀ c, Gives step c fun found d => (∀ a ∈ found, all a) → across c d)
    (trans : ∀ {c d e}, across c d → across d e → across c e) (bound : Nat) :
    Gives (Reading.repeated bound step) c fun list d => (∀ a ∈ list, all a) → across c d :=
  fun _ _ run every => Reader.repeated_run each trans run every

theorem stops {step : Reader (Option α)} {place : Cursor → Prop}
    (each : ∀ c, StopsAt step c place) (bound : Nat) :
    Gives (Reading.repeated bound step) c fun _ d => place d := by
  intro list d run
  obtain ⟨last, stopped⟩ := repeated_last run
  exact each last d stopped

end Gives

/-- From one cursor to another a text between quotes was read. -/
def GoesPast (c d : Cursor) : Prop :=
  ∃ text, ReadText text ∧ c.rest = text ++ d.rest ∧ d.position = c.position + text.length

namespace GoesPast

variable {c d e : Cursor}

theorem refl (c : Cursor) : GoesPast c c :=
  ⟨[], .nil, rfl, rfl⟩

theorem trans (first : GoesPast c d) (second : GoesPast d e) : GoesPast c e := by
  obtain ⟨text, read, split, position⟩ := first
  obtain ⟨more, read', split', position'⟩ := second
  refine ⟨text ++ more, read.append read', ?_, ?_⟩
  · rw [split, split', List.append_assoc]
  · rw [position', position, List.length_append, Nat.add_assoc]

theorem token (taken left : List Char) (make : Slice → Token) (split : c.rest = taken ++ left)
    (read : ReadText taken) : Gives (Reader.token make taken.length) c fun _ d => GoesPast c d := by
  rintro _ _ ⟨⟩
  exact ⟨taken, read, by simp [split], rfl⟩

theorem escape {after : List Char} {length : Nat} (make : Slice → Token)
    (split : c.rest = '\\' :: after) (found : escapeLength? after = some length) :
    Gives (Reader.token make (length + 1)) c fun _ d => GoesPast c d := by
  obtain ⟨unit, rest, same, count, read⟩ := ReadUnit.of_escapeLength? found
  rw [← count]
  exact token unit rest make (split.trans same) (.of_unit read)

theorem stretch {kind : Char → Bool} (make : Slice → Token) (other : kind '\\' = false) :
    Gives (Reader.token make (c.rest.takeWhile kind).length) c fun _ d => GoesPast c d := by
  obtain ⟨left, split, -⟩ := takeWhile_split kind c.rest
  refine token _ left make split (.of_plain fun d member => ?_)
  rintro rfl
  rw [List.mem_takeWhile_imp member] at other
  cases other

/-- A sign that opens nothing is text. -/
theorem signed (expression : Reader Expr) {sign : Char} {after : List Char}
    (template : isTemplateSign sign = true) (split : c.rest = sign :: after) :
    Gives (Reader.signed expression sign after) c fun parts d => parts = [] → GoesPast c d := by
  have slash : sign ≠ '\\' := by
    rintro rfl
    cases template
  have opened {reader : Reader Part} {e : Cursor} :
      Gives (reader >>= fun part => pure [part]) e fun parts d => parts = [] → GoesPast c d :=
    .bind .any fun _ _ _ => .pure nofun
  have plain (taken left : List Char) (same : sign :: after = taken ++ left)
      (other : ∀ d ∈ taken, d ≠ '\\') :
      Gives (Reader.token .text taken.length >>= fun _ => (pure [] : Reader (List Part))) c
        fun parts d => parts = [] → GoesPast c d :=
    .bind (token taken left .text (split.trans same) (.of_plain other))
      fun _ _ passed => .pure fun _ => passed
  cases after with
  | nil => exact plain [sign] [] rfl (by simpa using slash)
  | cons next rest =>
    rw [signed_cons]
    split
    · refine .bind .any fun _ _ _ => ?_
      split
      · exact opened
      · exact opened
    · split
      · rename_i same
        subst same
        split
        · rename_i brace
          obtain ⟨left, rfl⟩ := List.isPrefixOf_iff_prefix.mp brace
          exact plain [next, next, '{'] left rfl (by simpa using slash)
        · exact plain [next, next] rest rfl (by simpa using slash)
      · exact plain [sign] (next :: rest) rfl (by simpa using slash)

end GoesPast

theorem quotedPart_goesPast (expression : Reader Expr) (c : Cursor) :
    Gives (Reader.quotedPart expression) c
      fun found d => (∀ parts ∈ found, parts = []) → GoesPast c d := by
  refine .get ?_
  split
  · exact .pure fun _ => .refl c
  · refine .bind (GoesPast.signed expression rfl ‹_›) fun parts d passed => .pure fun plain => ?_
    exact passed (plain parts rfl)
  · refine .bind (GoesPast.signed expression rfl ‹_›) fun parts d passed => .pure fun plain => ?_
    exact passed (plain parts rfl)
  · split
    · exact .bind (GoesPast.escape _ ‹_› ‹_›) fun _ _ passed => .pure fun _ => passed
    · exact .failure
  · rename_i same
    rw [← same]
    exact .bind (GoesPast.stretch _ rfl) fun _ _ passed => .pure fun _ => passed
  · exact .failure

theorem labelPart_goesPast (c : Cursor) :
    Gives Reader.labelPart c fun found d => (∀ a ∈ found, True) → GoesPast c d := by
  refine .get ?_
  split
  · exact .pure fun _ => .refl c
  · split
    · exact .bind (GoesPast.escape _ ‹_› ‹_›) fun _ _ passed => .pure fun _ => passed
    · exact .failure
  · rename_i same
    rw [← same]
    exact .bind (GoesPast.stretch _ rfl) fun _ _ passed => .pure fun _ => passed
  · exact .failure

/-- A text in quotes, with what the grammar reads between them. -/
def InQuotes (text : List Char) : Prop :=
  ∃ inner, text = '"' :: (inner ++ ['"']) ∧ ReadText inner

theorem GoesPast.inQuotes {c d : Cursor} {first : List Char} (opening : c.rest = '"' :: first)
    (passed : GoesPast ⟨c.position + 1, c.rest.drop 1, c.tokens⟩ d)
    (closing : ∃ last, d.rest = '"' :: last) :
    InQuotes (c.rest.take (d.position + 1 - c.position)) := by
  obtain ⟨inner, read, split, position⟩ := passed
  obtain ⟨last, closing⟩ := closing
  refine ⟨inner, ?_, read⟩
  have length : d.position + 1 - c.position = ('"' :: (inner ++ ['"'])).length := by
    simp only [position, List.length_cons, List.length_append, List.length_nil]
    omega
  have whole : c.rest = ('"' :: (inner ++ ['"'])) ++ last := by
    rw [opening, closing] at split
    rw [opening, show first = inner ++ '"' :: last from split]
    simp
  rw [length, whole, List.take_left]

theorem quoted_inQuotes {expression : Reader Expr} {bound : Nat} {c : Cursor} {first : List Char}
    (opening : c.rest = '"' :: first) :
    Gives (Reader.quoted bound expression) c
      fun e _ => ∀ slice, e = .quoted slice → InQuotes slice.text := by
  refine .get (.take ?_)
  refine .bind (.and (.across (quotedPart_goesPast expression) GoesPast.trans bound)
    (.stops (quotedPart_stopsAt expression) bound)) ?_
  intro stretches d ⟨passed, closing⟩
  refine .take (.get ?_)
  split
  · rename_i empty
    have plain := List.flatten_eq_nil_iff.mp (List.isEmpty_iff.mp empty)
    refine .after fun _ _ => .pure ?_
    rintro slice ⟨⟩
    exact (passed plain).inQuotes opening closing
  · split
    · exact .pure nofun
    · exact .failure

theorem quotedLabel_inQuotes {bound : Nat} {c : Cursor} {first : List Char}
    (opening : c.rest = '"' :: first) :
    Gives (Reader.quotedLabel bound) c fun slice _ => InQuotes slice.text := by
  refine .get (.take ?_)
  refine .bind (.and (.across labelPart_goesPast GoesPast.trans bound)
    (.stops labelPart_stopsAt bound)) fun _ d ⟨passed, closing⟩ => ?_
  refine .take (.get (.after fun _ _ => .pure ?_))
  exact (passed fun _ _ => trivial).inQuotes opening closing

end TerraDoc.Hcl
