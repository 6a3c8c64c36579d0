import TerraDoc.Proofs.CommaList
import TerraDoc.Proofs.NameScan

namespace TerraDoc.Hcl.Exponent

/-- A piece of code is crossed: no bare exponent is found, and afterwards the mode is the same and
the next character is fresh. -/
def Crosses (text after : List Char) : Prop :=
  ∀ (s : State) (braces : Nat), s.mode = .code braces → Fresh s (text ++ after) →
    ∃ t, Scans Unmarked s text after t ∧ t.mode = .code braces ∧ t.around = s.around ∧
      Fresh t after

namespace Crosses

theorem append {first second after : List Char} (before : Crosses first (second ++ after))
    (later : Crosses second after) : Crosses (first ++ second) after := by
  intro s braces code fresh
  rw [List.append_assoc] at fresh
  obtain ⟨t, scanned, mode, around, fresh⟩ := before s braces code fresh
  obtain ⟨u, rest, mode, around', fresh⟩ := later t braces mode fresh
  exact ⟨u, scanned.append rest, mode, around'.trans around, fresh⟩

theorem single {c : Char} (inert : isInert c = true) (after : List Char) : Crosses [c] after := by
  intro s braces code fresh
  exact ⟨_, scans_unmarked (scans_inert code fresh inert), code, rfl, fresh_start rfl _⟩

theorem cons {c : Char} {text after : List Char} (inert : isInert c = true)
    (later : Crosses text after) : Crosses (c :: text) after :=
  (single inert (text ++ after)).append later

theorem braces {inner after : List Char} (crossed : Crosses inner ('}' :: after)) :
    Crosses ('{' :: (inner ++ ['}'])) after := by
  intro s braces code fresh
  have opened : Scans Silent s ['{'] (inner ++ ['}'] ++ after)
      ⟨.code (braces + 1), s.around, .start, '{'⟩ := by
    refine scans_fresh ⟨.code (braces + 1), s.around, .start, s.previous⟩ ?_ ?_ (by simp)
    · exact fresh
    · simp [freshStep, code, codeStep]
  obtain ⟨t, scanned, mode, around, fresh⟩ := crossed ⟨.code (braces + 1), s.around, .start, '{'⟩
    (braces + 1) rfl (fresh_start rfl _)
  have closed : Scans Silent t ['}'] after ⟨.code braces, t.around, .start, '}'⟩ := by
    refine scans_fresh ⟨.code braces, t.around, .start, t.previous⟩ fresh ?_ (by simp)
    simp [freshStep, mode, codeStep]
  have whole := (scans_unmarked opened).append (scanned.append (scans_unmarked closed))
  exact ⟨_, whole, rfl, around, fresh_start rfl _⟩

theorem word {name after : List Char} (whole : name? name = some name)
    (ends : ∃ c rest, after = c :: rest ∧ isWord c = false ∧ c ≠ ':') : Crosses name after := by
  intro s braces code fresh
  obtain ⟨c, tail, none, split, rfl, first, shape, -⟩ := name?_shape whole
  obtain ⟨previous, later⟩ : ∃ previous, Scans Silent { s with phase := .word, previous := c }
      tail after { s with phase := .word, previous } := scans_wordTail rfl shape
  refine ⟨_, scans_unmarked ((scans_first_letter code fresh first).append later), code, rfl, ?_⟩
  obtain ⟨d, more, rfl, other, colon⟩ := ends
  exact fresh_word rfl other fun pair => colon pair.1

theorem name {name after : List Char} (whole : name? name = some name) (ends : Ends after) :
    Crosses name after := by
  obtain ⟨c, rest, split, other, -, -, colon, -⟩ := ends.head
  exact word whole ⟨c, rest, split, other, colon⟩

theorem nil (after : List Char) : Crosses [] after := fun s _ code fresh =>
  ⟨s, .nil s after, code, rfl, fresh⟩

theorem signs {text after : List Char} (inert : ∀ c ∈ text, isInert c = true) :
    Crosses text after := by
  induction text with
  | nil => exact nil after
  | cons c text ih =>
    exact cons (inert c List.mem_cons_self) (ih fun d inside => inert d (.tail _ inside))

section Lists

variable {α : Type} {gap : List Char} {written : α → List Char} {items : List α}

theorem moreText {after : List Char} (blank : ∀ c ∈ gap, c = ' ') (ends : Ends after)
    (each : ∀ item ∈ items, ∀ after, Ends after → Crosses (written item) after) :
    Crosses (Hcl.moreText gap written items) after ∧ Ends (Hcl.moreText gap written items ++ after) := by
  induction items with
  | nil => exact ⟨nil after, ends⟩
  | cons item rest ih =>
    obtain ⟨others, further⟩ := ih fun item inside => each item (.tail _ inside)
    refine ⟨cons rfl (append (signs fun c inside => ?_) (append ?_ others)), ',', _, rfl, by simp⟩
    · rw [blank c inside]
      rfl
    · exact each item List.mem_cons_self _ further

theorem listText {after : List Char} (blank : ∀ c ∈ gap, c = ' ') (ends : Ends after)
    (each : ∀ item ∈ items, ∀ after, Ends after → Crosses (written item) after) :
    Crosses (Hcl.listText gap written items) after := by
  cases items with
  | nil => exact nil after
  | cons item rest =>
    obtain ⟨others, further⟩ := moreText blank ends fun item inside => each item (.tail _ inside)
    exact append (each item List.mem_cons_self _ further) others

theorem entryText {key : α → List Char} {item : α} {after : List Char}
    (blank : ∀ c ∈ gap, c = ' ') (named : ∀ after, Ends after → Crosses (key item) after)
    (whole : Crosses (written item) after) : Crosses (Hcl.entryText gap written key item) after := by
  have gaps (text : List Char) : Crosses gap text := signs fun c inside => by
    rw [blank c inside]
    rfl
  refine append (named _ ?_) (append (gaps _) (cons rfl (append (gaps _) whole)))
  cases gap with
  | nil => exact ⟨'=', _, rfl, by simp⟩
  | cons c gap => exact ⟨c, _, rfl, by simp [blank c]⟩

end Lists

end Crosses

end TerraDoc.Hcl.Exponent
