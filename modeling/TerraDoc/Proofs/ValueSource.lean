import TerraDoc.Hcl.Quoted
import TerraDoc.Hcl.Token
import TerraDoc.Proofs.CommaList
import TerraDoc.Proofs.NumberText
import TerraDoc.Proofs.QuotedScan
import TerraDoc.Proofs.QuotedSpelling

namespace TerraDoc

namespace Value

def isControl (c : Char) : Bool :=
  c.toNat < 0x20 || (0x7f ≤ c.toNat && c.toNat < 0xa0)

def codeText (code : Nat) : List Char :=
  [code / 4096, code / 256, code / 16, code].map fun n => Nat.digitChar (n % 16)

/-- A character as it stands between quotes. -/
def escaped (c : Char) : List Char :=
  if c = '\\' then ['\\', '\\']
  else if c = '"' then ['\\', '"']
  else if c = '\n' then ['\\', 'n']
  else if c = '\r' then ['\\', 'r']
  else if c = '\t' then ['\\', 't']
  else if c = '$' || c = '%' || isControl c then '\\' :: 'u' :: codeText c.toNat
  else [c]

def quotedText (text : String) : List Char :=
  '"' :: (text.toList.flatMap escaped ++ ['"'])

mutual

/-- The expression that is written for a value. -/
def source : Value → List Char
  | .str text => quotedText text
  | .num n => n.text
  | .bool b => (if b then "true" else "false").toList
  | .seq items => '[' :: (itemSources items ++ [']'])
  | .map entries => '{' :: (entrySources entries ++ ['}'])

def itemSources : List Value → List Char
  | [] => []
  | item :: rest => item.source ++ moreItems rest

def moreItems : List Value → List Char
  | [] => []
  | item :: rest => ',' :: ' ' :: (item.source ++ moreItems rest)

def entrySources : List (String × Value) → List Char
  | [] => []
  | (key, value) :: rest =>
      quotedText key ++ ' ' :: '=' :: ' ' :: (value.source ++ moreEntries rest)

def moreEntries : List (String × Value) → List Char
  | [] => []
  | (key, value) :: rest =>
      ',' :: ' ' :: (quotedText key ++ ' ' :: '=' :: ' ' :: (value.source ++ moreEntries rest))

end

/-- The declaration of a variable with the value as its default. -/
def declaration (value : Value) : List Char :=
  "variable \"x\" \x7b\n  default = ".toList ++ (value.source ++ "\n\x7d\n".toList)

end Value

namespace Hcl

open Exponent

/-- The ways to write a character between quotes: as it is, by a letter, or by its code. -/
inductive Escaped : Char → List Char → Prop where
  | plain {c : Char} (plain : isQuotedPlain c = true) : Escaped c [c]
  | short {c letter : Char} (short : Quoted.short? letter = some c) : Escaped c ['\\', letter]
  | coded {c d₁ d₂ d₃ d₄ : Char} (hex : ∀ d ∈ [d₁, d₂, d₃, d₄], isHexDigit d = true)
      (coded : Quoted.coded? [d₁, d₂, d₃, d₄] = some c) :
      Escaped c ['\\', 'u', d₁, d₂, d₃, d₄]

private theorem codeText_coded :
    ∀ code < 160, (Value.codeText code).all isHexDigit = true ∧
      Quoted.coded? (Value.codeText code) = some (Char.ofNat code) := by
  decide +kernel

private theorem special_code {c : Char}
    (special : (c = '$' || c = '%' || Value.isControl c) = true) : c.toNat < 160 := by
  simp only [Bool.or_eq_true, decide_eq_true_eq, Value.isControl, Bool.and_eq_true] at special
  rcases special with (rfl | rfl) | low | high
  · decide
  · decide
  · omega
  · omega

theorem escaped_escaped (c : Char) : Escaped c (Value.escaped c) := by
  unfold Value.escaped
  split
  · subst c
    exact .short rfl
  split
  · subst c
    exact .short rfl
  split
  · subst c
    exact .short rfl
  split
  · subst c
    exact .short rfl
  split
  · subst c
    exact .short rfl
  split
  · rename_i special
    obtain ⟨hex, coded⟩ := codeText_coded c.toNat (special_code special)
    rw [Char.ofNat_toNat] at coded
    exact .coded (List.all_eq_true.mp hex) coded
  · rename_i slash quote feed _ _ special
    simp only [Bool.or_eq_true, decide_eq_true_eq, not_or] at special
    exact .plain (by simp [isQuotedPlain, slash, quote, feed, special])

namespace Escaped

variable {c : Char} {text : List Char}

theorem scans {s : State} {after : List Char} (escaped : Escaped c text)
    (quoted : s.mode = .quoted) (start : s.phase = .start) :
    ∃ previous, Scans Silent s text after { s with previous } := by
  cases escaped with
  | plain plain => exact scans_quotedPlain quoted start (by simpa using plain)
  | @short letter short => exact ⟨letter, scans_escape quoted start⟩
  | coded hex coded => exact scans_coded quoted start hex

theorem unescape (escaped : Escaped c text) (rest : List Char) :
    Quoted.unescape (text ++ rest) = (c :: ·) <$> Quoted.unescape rest := by
  cases escaped with
  | plain plain =>
    simp only [isQuotedPlain, List.contains_cons, Bool.not_or, Bool.and_eq_true,
      Bool.not_eq_true', beq_eq_false_iff_ne] at plain
    obtain ⟨slash, dollar, percent, -⟩ := plain
    have sign : Quoted.isTemplateSign c = false := by
      simp [Quoted.isTemplateSign, dollar, percent]
    exact Quoted.unescape_plain slash fun template => by simp [sign] at template
  | short short => exact Quoted.unescape_letter short rest
  | coded hex coded => exact Quoted.unescape_code rfl coded rest

end Escaped

theorem scans_escaped {s : State} {after : List Char} (text : List Char)
    (quoted : s.mode = .quoted) (start : s.phase = .start) :
    ∃ previous, Scans Silent s (text.flatMap Value.escaped) after { s with previous } := by
  induction text generalizing s with
  | nil => exact ⟨s.previous, .nil s after⟩
  | cons c text ih =>
    obtain ⟨here, first⟩ := (escaped_escaped c).scans quoted start
    obtain ⟨previous, later⟩ := ih (s := { s with previous := here }) quoted start
    exact ⟨previous, first.append later⟩

theorem unescape_escaped (text : List Char) :
    Quoted.unescape (text.flatMap Value.escaped) = .ok text := by
  induction text with
  | nil => rfl
  | cons c rest ih =>
    rw [List.flatMap_cons, (escaped_escaped c).unescape, ih]
    rfl

theorem decode_quotedText (text : String) :
    Quoted.decode (Value.quotedText text) = .ok text.toList :=
  Quoted.decode_quotes (unescape_escaped text.toList)

/-- No control character stands in what is written. -/
def Printable (text : List Char) : Prop :=
  ∀ c ∈ text, Value.isControl c = false

theorem Printable.append {first second : List Char} (one : Printable first)
    (other : Printable second) : Printable (first ++ second) := by
  intro c membership
  rcases List.mem_append.mp membership with inside | inside
  · exact one c inside
  · exact other c inside

theorem Printable.cons {c : Char} {text : List Char} (one : Value.isControl c = false)
    (other : Printable text) : Printable (c :: text) := by
  intro d membership
  rcases List.mem_cons.mp membership with rfl | inside
  · exact one
  · exact other d inside

theorem printable_escaped (c : Char) : Printable (Value.escaped c) := by
  unfold Value.escaped
  split
  · exact List.all_iff_forall_prop.mp (by decide)
  split
  · exact List.all_iff_forall_prop.mp (by decide)
  split
  · exact List.all_iff_forall_prop.mp (by decide)
  split
  · exact List.all_iff_forall_prop.mp (by decide)
  split
  · exact List.all_iff_forall_prop.mp (by decide)
  split
  · rename_i special
    obtain ⟨hex, -⟩ := codeText_coded c.toNat (special_code special)
    refine .cons (by decide) (.cons (by decide) fun d membership => ?_)
    have digit := List.all_eq_true.mp hex d membership
    exact ascii_cases (fun d => isHexDigit d = true → Value.isControl d = false)
      (by decide +kernel) (hexDigit_ascii digit) digit
  · rename_i special
    simp only [Bool.or_eq_true, not_or, Bool.not_eq_true] at special
    exact .cons special.2 (by simp [Printable])

theorem printable_quotedText (text : String) : Printable (Value.quotedText text) := by
  refine .cons (by decide) (.append (fun c membership => ?_) (.cons (by decide) (by simp [Printable])))
  obtain ⟨d, -, inside⟩ := List.mem_flatMap.mp membership
  exact printable_escaped d c inside

theorem printable_number (n : Number) : Printable n.text := by
  intro c inside
  rcases Number.mem_text inside with digit | rfl | rfl
  · exact digit_cases (fun c => Value.isControl c = false) (by decide) digit
  · decide
  · decide

theorem moreItems_eq (items : List Value) :
    Value.moreItems items = moreText [' '] Value.source items := by
  induction items with
  | nil => rfl
  | cons item rest ih =>
    rw [Value.moreItems, ih]
    rfl

theorem source_seq (items : List Value) :
    (Value.seq items).source = '[' :: (listText [' '] Value.source items ++ [']']) := by
  cases items with
  | nil => rfl
  | cons item rest => rw [Value.source, Value.itemSources, moreItems_eq, listText]

/-- What is written for an entry of a map. -/
def entrySource (entry : String × Value) : List Char :=
  entryText [' '] (fun entry => entry.2.source) (fun entry => Value.quotedText entry.1) entry

theorem moreEntries_eq (entries : List (String × Value)) :
    Value.moreEntries entries = moreText [' '] entrySource entries := by
  induction entries with
  | nil => rfl
  | cons entry rest ih =>
    rw [Value.moreEntries, ih]
    simp [moreText, entrySource, entryText]

theorem source_map (entries : List (String × Value)) :
    (Value.map entries).source = '{' :: (listText [' '] entrySource entries ++ ['}']) := by
  cases entries with
  | nil => rfl
  | cons entry rest =>
    rw [Value.source, Value.entrySources, moreEntries_eq]
    simp [listText, entrySource, entryText]

theorem printable_listText {α : Type} {written : α → List Char} {items : List α}
    (each : ∀ item ∈ items, Printable (written item)) :
    Printable (listText [' '] written items) := by
  intro c inside
  rcases mem_listText inside with rfl | blank | ⟨item, member, inside⟩
  · decide
  · rw [List.mem_singleton.mp blank]
    decide
  · exact each item member c inside

theorem printable_entrySource {entry : String × Value} (value : Printable entry.2.source) :
    Printable (entrySource entry) := by
  intro c inside
  rcases mem_entryText inside with rfl | blank | key | inside
  · decide
  · rw [List.mem_singleton.mp blank]
    decide
  · exact printable_quotedText entry.1 c key
  · exact value c inside

theorem printable_source (value : Value) : Printable value.source := by
  have closed (c : Char) (plain : Value.isControl c = false) : Printable [c] :=
    .cons plain (by simp [Printable])
  induction value using Value.induction with
  | str text => exact printable_quotedText text
  | num n => exact printable_number n
  | bool b => cases b <;> exact List.all_iff_forall_prop.mp (by decide)
  | seq items each =>
    rw [source_seq]
    exact .cons (by decide) (.append (printable_listText each) (closed ']' (by decide)))
  | map entries each =>
    rw [source_map]
    refine .cons (by decide) (.append (printable_listText fun entry member => ?_)
      (closed '}' (by decide)))
    exact printable_entrySource (each entry member)

end Hcl

end TerraDoc
