import TerraDoc.Hcl.Grammar

namespace TerraDoc.Hcl

variable {α β : Type}

/-- In a source of some length, a reader takes a text up to what is left of it and gives something
good. -/
def Reads (total : Nat) (reader : Reader α) (text left : List Char) (good : α → Prop) : Prop :=
  ∀ p tokens, p + text.length = total → ∃ a q tokens',
    reader ⟨p, text, tokens⟩ = some (a, ⟨q, left, tokens'⟩) ∧ q + left.length = total ∧ good a

/-- A text that begins with neither a blank nor a comment. -/
def Solid (text : List Char) : Prop :=
  ∀ p tokens, skipGapFrom .blank p tokens text = some ⟨p, text, tokens⟩

/-- A text of blanks, and the text after them. -/
structure Gap.Before (text rest : List Char) : Prop where
  split : ∃ gap, text = gap ++ rest ∧ ∀ c ∈ gap, isBlank c = true
  solid : Solid rest

theorem solid_nil : Solid [] := fun _ _ => rfl

/-- Whether a character begins neither a blank nor a comment. -/
def startsToken (c : Char) : Bool :=
  !isBlank c && c != '#' && c != '/'

theorem solid_of_head {c : Char} {rest : List Char} (starts : startsToken c = true) :
    Solid (c :: rest) := by
  simp only [startsToken, Bool.and_eq_true, Bool.not_eq_true', bne_iff_ne] at starts
  obtain ⟨⟨blank, hash⟩, slash⟩ := starts
  intro p tokens
  unfold skipGapFrom
  split <;> simp_all

theorem Gap.Before.of_solid {text : List Char} (solid : Solid text) : Gap.Before text text :=
  ⟨⟨[], rfl, by simp⟩, solid⟩

theorem Gap.Before.here {c : Char} {rest : List Char} (starts : startsToken c = true) :
    Gap.Before (c :: rest) (c :: rest) :=
  .of_solid (solid_of_head starts)

theorem Gap.Before.cons {c : Char} {text rest : List Char} (blank : isBlank c = true)
    (before : Gap.Before text rest) : Gap.Before (c :: text) rest := by
  obtain ⟨⟨gap, rfl, blanks⟩, solid⟩ := before
  refine ⟨⟨c :: gap, rfl, fun d membership => ?_⟩, solid⟩
  rcases List.mem_cons.mp membership with rfl | inside
  · exact blank
  · exact blanks d inside

theorem skipGapFrom_blank {c : Char} (blank : isBlank c = true) (p : Nat) (tokens : List Token)
    (rest : List Char) :
    skipGapFrom .blank p tokens (c :: rest) = skipGapFrom .blank (p + 1) tokens rest := by
  have hash : c ≠ '#' := by rintro rfl; exact absurd blank (by decide)
  have slash : c ≠ '/' := by rintro rfl; exact absurd blank (by decide)
  rw [skipGapFrom.eq_def]
  split <;> simp_all

theorem skipGapFrom_blanks (gap : List Char) (blank : ∀ c ∈ gap, isBlank c = true)
    (p : Nat) (tokens : List Token) {text : List Char} (solid : Solid text) :
    skipGapFrom .blank p tokens (gap ++ text) = some ⟨p + gap.length, text, tokens⟩ := by
  induction gap generalizing p with
  | nil => exact solid p tokens
  | cons c gap ih =>
    rw [List.cons_append, skipGapFrom_blank (blank c List.mem_cons_self),
      ih (fun d membership => blank d (List.mem_cons_of_mem c membership)), List.length_cons,
      Nat.add_assoc, Nat.add_comm 1]

namespace Reads

variable {total : Nat} {text middle left : List Char} {good : α → Prop}

theorem bind {reader : Reader α} {next : α → Reader β} {better : β → Prop}
    (first : Reads total reader text middle good)
    (later : ∀ a, good a → Reads total (next a) middle left better) :
    Reads total (reader >>= next) text left better := by
  intro p tokens place
  obtain ⟨a, q, tokens', run, place, holds⟩ := first p tokens place
  obtain ⟨b, r, tokens'', run', place, holds'⟩ := later a holds q tokens' place
  refine ⟨b, r, tokens'', ?_, place, holds'⟩
  show (reader ⟨p, text, tokens⟩).bind _ = _
  rw [run]
  exact run'

theorem pure {a : α} (holds : good a) : Reads total (Pure.pure a : Reader α) text text good :=
  fun p tokens place => ⟨a, p, tokens, rfl, place, holds⟩

theorem mono {reader : Reader α} {better : α → Prop} (reads : Reads total reader text left good)
    (stronger : ∀ a, good a → better a) : Reads total reader text left better := by
  intro p tokens place
  obtain ⟨a, q, tokens', run, place, holds⟩ := reads p tokens place
  exact ⟨a, q, tokens', run, place, stronger a holds⟩

theorem get : Reads total (MonadState.get : Reader Cursor) text text
    fun c => c.rest = text ∧ c.position + text.length = total :=
  fun p tokens place => ⟨⟨p, text, tokens⟩, p, tokens, rfl, place, rfl, place⟩

theorem take (taken left : List Char) :
    Reads total (Reader.take taken.length) (taken ++ left) left fun _ => True := by
  intro p tokens place
  rw [List.length_append, ← Nat.add_assoc] at place
  exact ⟨(), p + taken.length, tokens, by simp [Reader.take], place, trivial⟩

theorem take_one (c : Char) (left : List Char) :
    Reads total (Reader.take 1) (c :: left) left fun _ => True :=
  take [c] left

theorem token (make : Slice → Token) (taken left : List Char) :
    Reads total (Reader.token make taken.length) (taken ++ left) left (·.text = taken) := by
  intro p tokens place
  rw [List.length_append, ← Nat.add_assoc] at place
  exact ⟨⟨p, taken⟩, p + taken.length, make ⟨p, taken⟩ :: tokens, by simp [Reader.token], place, rfl⟩

theorem keep (read : Token) : Reads total (Reader.keep read) text text fun _ => True :=
  fun p tokens place => ⟨(), p, read :: tokens, rfl, place, trivial⟩

theorem sliceFrom {origin : Cursor} {taken : List Char} (same : origin.rest = taken ++ text)
    (place : origin.position + (taken ++ text).length = total) :
    Reads total (Reader.sliceFrom origin) text text (·.text = taken) := by
  intro p tokens here
  refine ⟨⟨origin.position, taken⟩, p, tokens, ?_, here, rfl⟩
  have length : p - origin.position = taken.length := by
    rw [List.length_append] at place
    omega
  show some (Slice.mk origin.position (origin.rest.take (p - origin.position)), _) = _
  rw [same, length, List.take_left]

theorem skipGap (before : Gap.Before text left) :
    Reads total Reader.skipGap text left fun _ => True := by
  intro p tokens place
  obtain ⟨⟨gap, rfl, blank⟩, solid⟩ := before
  rw [List.length_append, ← Nat.add_assoc] at place
  refine ⟨(), p + gap.length, tokens, ?_, place, trivial⟩
  simp [Reader.skipGap, skipGapFrom_blanks gap blank p tokens solid]

theorem mark (before : Gap.Before text left) :
    Reads total Reader.mark text left
      fun c => c.rest = left ∧ c.position + left.length = total :=
  bind (skipGap before) fun _ _ => get

theorem ahead (before : Gap.Before text left) :
    Reads total Reader.ahead text text (· = left) := by
  intro p tokens place
  obtain ⟨⟨gap, rfl, blank⟩, solid⟩ := before
  have skipped : Reader.skipGap ⟨p, gap ++ left, tokens⟩ =
      some ((), ⟨p + gap.length, left, tokens⟩) := by
    simp [Reader.skipGap, skipGapFrom_blanks gap blank p tokens solid]
  refine ⟨left, p, tokens, ?_, place, rfl⟩
  show (Reader.skipGap ⟨p, gap ++ left, tokens⟩).bind _ = _
  rw [skipped]
  rfl

theorem symbol {sign : List Char} (before : Gap.Before text (sign ++ left)) :
    Reads total (Reader.symbol sign) text left fun _ => True := by
  refine bind (skipGap before) fun _ _ => bind get fun c ⟨same, _⟩ => ?_
  rw [same, if_pos (by simp)]
  exact take sign left

theorem optional_true {sign : List Char} (before : Gap.Before text (sign ++ left)) :
    Reads total (Reader.optional? sign) text left (· = true) := by
  refine bind (ahead before) fun next same => ?_
  rw [same, if_pos (by simp)]
  exact bind (symbol before) fun _ _ => pure rfl

theorem optional_false {sign : List Char} (before : Gap.Before text left)
    (other : sign.isPrefixOf left = false) :
    Reads total (Reader.optional? sign) text text (· = false) := by
  refine bind (ahead before) fun next same => ?_
  rw [same, if_neg (by simp [other])]
  exact pure rfl

theorem name {word : List Char} (before : Gap.Before text (word ++ left))
    (named : name? (word ++ left) = some word) :
    Reads total Reader.name text left (·.text = word) := by
  refine bind (mark before) fun start ⟨same, _⟩ => ?_
  simp only [same, named]
  exact token .name word left

theorem wordAhead (word : List Char) (before : Gap.Before text left) :
    Reads total (Reader.wordAhead word) text text (· = (name? left == some word)) :=
  bind (ahead before) fun _ same => pure (by rw [same])

theorem repeated_done {step : Reader (Option α)} (bound : Nat)
    (run : Reads total step text left (· = none)) :
    Reads total (Reading.repeated (bound + 1) step) text left (· = []) := by
  refine bind run fun stop same => ?_
  rw [same]
  exact pure rfl

theorem repeated_more (good : α → Prop) {step : Reader (Option α)} {bound : Nat}
    {all : List α → Prop}
    (run : Reads total step text middle fun found => ∃ a, found = some a ∧ good a)
    (later : Reads total (Reading.repeated bound step) middle left all) :
    Reads total (Reading.repeated (bound + 1) step) text left fun list =>
      ∃ a others, list = a :: others ∧ good a ∧ all others := by
  refine bind run fun found shape => ?_
  obtain ⟨a, rfl, holds⟩ := shape
  exact bind later fun others rest => pure ⟨a, others, rfl, holds, rest⟩

end Reads

end TerraDoc.Hcl
