import Mathlib.Data.List.DropRight
import TerraDoc.Json.Reader

namespace TerraDoc.Json

variable {rest : List Char} {level : Nat}

theorem readUnits_short {letter c : Char} (short : shortEscape? letter = some c)
    (other : letter ≠ 'u') (rest : List Char) :
    readUnits ('\\' :: letter :: rest) =
      (readUnits rest).map fun (units, rest) => (c.toNat :: units, rest) := by
  rw [readUnits, short]
  · cases readUnits rest with
    | none => rfl
    | some read => rfl
  · intro _ _ _ _ _ same
    exact absurd same other

theorem hexValue?_hexDigit : ∀ n < 16, hexValue? (hexDigit n) = some n := by decide

theorem readUnits_code {n : Nat} (small : n < 256) (rest : List Char) :
    readUnits ('\\' :: 'u' :: '0' :: '0' :: hexDigit (n / 16) :: hexDigit (n % 16) :: rest) =
      (readUnits rest).map fun (units, rest) => (n :: units, rest) := by
  have zero : hexValue? '0' = some 0 := by decide
  have value : (0 * 16 + 0) * 256 + n / 16 * 16 + n % 16 = n := by omega
  rw [readUnits, zero, hexValue?_hexDigit (n / 16) (by omega),
    hexValue?_hexDigit (n % 16) (by omega)]
  simp only [Option.bind_eq_bind, Option.bind_some, value]
  cases readUnits rest with
  | none => rfl
  | some read => rfl

theorem readUnits_plain {c : Char} (quote : c ≠ '"') (backslash : c ≠ '\\')
    (shown : ¬ c.toNat < 0x20) (rest : List Char) :
    readUnits (c :: rest) =
      (readUnits rest).map fun (units, rest) => (c.toNat :: units, rest) := by
  rw [readUnits]
  · rw [if_neg (by simp [backslash, shown])]
    cases readUnits rest with
    | none => rfl
    | some read => rfl
  · exact quote
  · intro _ _ _ _ _ same
    exact absurd same backslash
  · intro _ _ same
    exact absurd same backslash

/-- A character that is written is read as one unit. -/
theorem readUnits_escape (c : Char) (rest : List Char) :
    readUnits (escape c ++ rest) =
      (readUnits rest).map fun (units, rest) => (c.toNat :: units, rest) := by
  rw [escape]
  split
  · subst c
    exact readUnits_short rfl (by decide) rest
  split
  · subst c
    exact readUnits_short rfl (by decide) rest
  split
  · subst c
    exact readUnits_short rfl (by decide) rest
  split
  · subst c
    exact readUnits_short rfl (by decide) rest
  split
  · subst c
    exact readUnits_short rfl (by decide) rest
  split
  · subst c
    exact readUnits_short rfl (by decide) rest
  split
  · subst c
    exact readUnits_short rfl (by decide) rest
  split
  · exact readUnits_code (by omega) rest
  · exact readUnits_plain ‹_› ‹_› ‹_› rest

theorem readUnits_flatMap_escape (text rest : List Char) :
    readUnits (text.flatMap escape ++ '"' :: rest) = some (text.map Char.toNat, rest) := by
  induction text with
  | nil => rfl
  | cons c text inductionHypothesis =>
    rw [List.flatMap_cons, List.append_assoc, readUnits_escape, inductionHypothesis]
    rfl

theorem toNat_not_surrogate (c : Char) : ¬ (0xD800 ≤ c.toNat ∧ c.toNat ≤ 0xDFFF) := by
  have valid : c.toNat < 0xD800 ∨ 0xDFFF < c.toNat ∧ c.toNat < 0x110000 := c.valid
  omega

theorem textOfUnits_map_toNat (text : List Char) :
    textOfUnits (text.map Char.toNat) = some text := by
  induction text with
  | nil => rfl
  | cons c text inductionHypothesis =>
    have whole := toNat_not_surrogate c
    cases text with
    | nil =>
      rw [List.map_singleton, textOfUnits, if_neg (by simpa using whole), Char.ofNat_toNat]
    | cons d text =>
      rw [List.map_cons] at inductionHypothesis
      rw [List.map_cons, List.map_cons, textOfUnits, if_neg, if_neg (by simpa using whole),
        inductionHypothesis, Option.map_some, Char.ofNat_toNat]
      simp only [Bool.and_eq_true, decide_eq_true_eq]
      omega

theorem readString_quoted (text : String) (rest : List Char) :
    readString (text.toList.flatMap escape ++ '"' :: rest) = some (some text, rest) := by
  rw [readString, readUnits_flatMap_escape]
  simp [textOfUnits_map_toNat]

def Blanks (text : List Char) : Prop :=
  ∀ c ∈ text, isBlank c = true

theorem blanks_nil : Blanks [] := by
  simp [Blanks]

theorem blanks_newLine (level : Nat) : Blanks (newLine level) := by
  intro c member
  rcases List.mem_cons.mp member with rfl | member
  · decide
  · rw [List.eq_of_mem_replicate member]
    decide

theorem skip_blanks {blanks : List Char} (blank : Blanks blanks) (text : List Char) :
    skip (blanks ++ text) = skip text := by
  rw [skip, List.dropWhile_append_of_pos blank, skip]

theorem skip_cons {c : Char} (shown : isBlank c = false) (rest : List Char) :
    skip (c :: rest) = c :: rest := by
  rw [skip, List.dropWhile_cons_of_neg (by rw [shown]; decide)]

theorem skip_skip (text : List Char) : skip (skip text) = skip text :=
  List.dropWhile_idempotent _ _

theorem readValue_skip (bound : Nat) (text : List Char) :
    readValue bound (skip text) = readValue bound text := by
  cases bound with
  | zero => rw [readValue, readValue]
  | succ bound => rw [readValue, readValue, skip_skip]

theorem readItems_skip (bound : Nat) (text : List Char) :
    readItems bound (skip text) = readItems bound text := by
  cases bound with
  | zero => rw [readItems, readItems]
  | succ bound => rw [readItems, readItems, readValue_skip]

theorem readMembers_skip (bound : Nat) (text : List Char) :
    readMembers bound (skip text) = readMembers bound text := by
  cases bound with
  | zero => rw [readMembers, readMembers]
  | succ bound => rw [readMembers, readMembers, skip_skip]

theorem readValue_blanks (bound : Nat) {blanks : List Char} (blank : Blanks blanks)
    (text : List Char) : readValue bound (blanks ++ text) = readValue bound text := by
  rw [← readValue_skip, skip_blanks blank, readValue_skip]

theorem readValue_quote (bound : Nat) (text : List Char) :
    readValue (bound + 1) ('"' :: text) =
      (readString text).map fun (content, rest) => (content.elim .unpaired .string, rest) := by
  rw [readValue]
  change (readString text).bind _ = _
  cases readString text with
  | none => rfl
  | some read => rfl

theorem readValue_bracket (bound : Nat) {text : List Char} (more : (skip text).head? ≠ some ']') :
    readValue (bound + 1) ('[' :: text) =
      (readItems bound text).map fun (items, rest) => (.array items, rest) := by
  rw [readValue, ← readItems_skip bound text]
  conv_lhs => whnf
  split
  · rename_i rest closed
    rw [closed] at more
    exact absurd rfl more
  · rfl

theorem readValue_brace (bound : Nat) {text : List Char} (more : (skip text).head? ≠ some '}') :
    readValue (bound + 1) ('{' :: text) =
      (readMembers bound text).map fun (members, rest) => (.object members, rest) := by
  rw [readValue, ← readMembers_skip bound text]
  conv_lhs => whnf
  split
  · rename_i rest closed
    rw [closed] at more
    exact absurd rfl more
  · rfl

theorem readItems_comma {bound : Nat} {text rest : List Char} {item : Json}
    (first : readValue bound text = some (item, ',' :: rest)) :
    readItems (bound + 1) text =
      (readItems bound rest).map fun (items, rest) => (item :: items, rest) := by
  rw [readItems, first]
  change (readItems bound rest).bind _ = _
  cases readItems bound rest with
  | none => rfl
  | some read => rfl

theorem readItems_last {bound : Nat} {text after rest : List Char} {item : Json}
    (last : readValue bound text = some (item, after)) (closed : skip after = ']' :: rest) :
    readItems (bound + 1) text = some ([item], rest) := by
  rw [readItems, last, Option.bind_eq_bind, Option.bind_some]
  dsimp only
  rw [closed]
  rfl

theorem readMembers_key {bound : Nat} {text after lead : List Char} {value : Json}
    (first : readValue bound text = some (value, after)) (blank : Blanks lead) (key : String) :
    readMembers (bound + 1) (lead ++ (quoted key ++ ':' :: text)) =
      match skip after with
      | ',' :: rest => do
          let (members, rest) ← readMembers bound rest
          return ((key, value) :: members, rest)
      | '}' :: rest => some ([(key, value)], rest)
      | _ => none := by
  rw [readMembers, skip_blanks blank, quoted, List.cons_append, skip_cons (by decide),
    List.append_assoc, List.singleton_append]
  change (readString _).bind _ = _
  rw [readString_quoted, Option.bind_some]
  change (readValue bound text).bind _ = _
  rw [first]
  rfl

theorem readMembers_comma {bound : Nat} {text rest lead : List Char} {value : Json}
    (first : readValue bound text = some (value, ',' :: rest)) (blank : Blanks lead)
    (key : String) :
    readMembers (bound + 1) (lead ++ (quoted key ++ ':' :: text)) =
      (readMembers bound rest).map fun (members, rest) => ((key, value) :: members, rest) := by
  rw [readMembers_key first blank]
  change (readMembers bound rest).bind _ = _
  cases readMembers bound rest with
  | none => rfl
  | some read => rfl

theorem readMembers_last {bound : Nat} {text after rest lead : List Char} {value : Json}
    (last : readValue bound text = some (value, after)) (closed : skip after = '}' :: rest)
    (blank : Blanks lead) (key : String) :
    readMembers (bound + 1) (lead ++ (quoted key ++ ':' :: text)) =
      some ([(key, value)], rest) := by
  rw [readMembers_key last blank, closed]
  rfl

/-- A text that is read as a value, whatever stands behind it. -/
def Spells (json : Json) (text : List Char) : Prop :=
  ∀ bound rest, text.length < bound → readValue bound (text ++ rest) = some (json, rest)

theorem Spells.behind {json : Json} {text lead : List Char} (spells : Spells json text)
    (blank : Blanks lead) : Spells json (lead ++ text) := by
  intro bound rest enough
  rw [List.length_append] at enough
  rw [List.append_assoc, readValue_blanks bound blank]
  exact spells bound rest (by omega)

theorem Spells.head {json : Json} {text : List Char} (spells : Spells json text)
    (rest : List Char) : (skip (text ++ rest)).head? ≠ some ']' := by
  intro closed
  have read := spells (text.length + 1) rest (Nat.lt_succ_self _)
  obtain ⟨more, same⟩ : ∃ more, skip (text ++ rest) = ']' :: more := by
    cases skipped : skip (text ++ rest) with
    | nil => rw [skipped] at closed; cases closed
    | cons c more =>
      rw [skipped] at closed
      exact ⟨more, by rw [Option.some.inj closed]⟩
  rw [readValue, same] at read
  cases read

/-- Texts of items with commas between them and perhaps blanks at the end. -/
inductive SpellsItems : List Json → List Char → Prop where
  | last {item : Json} {text trail : List Char} (first : Spells item text) (blank : Blanks trail) :
      SpellsItems [item] (text ++ trail)
  | more {item : Json} {items : List Json} {text rest : List Char} (first : Spells item text)
      (others : SpellsItems items rest) : SpellsItems (item :: items) (text ++ ',' :: rest)

/-- Texts of members with commas between them and perhaps blanks before each and at the end. -/
inductive SpellsMembers : List (String × Json) → List Char → Prop where
  | last {value : Json} {lead text trail : List Char} (before : Blanks lead) (key : String)
      (first : Spells value text) (blank : Blanks trail) :
      SpellsMembers [(key, value)] (lead ++ (quoted key ++ ':' :: (text ++ trail)))
  | more {value : Json} {members : List (String × Json)} {lead text rest : List Char}
      (before : Blanks lead) (key : String) (first : Spells value text)
      (others : SpellsMembers members rest) :
      SpellsMembers ((key, value) :: members) (lead ++ (quoted key ++ ':' :: (text ++ ',' :: rest)))

theorem SpellsItems.read {items : List Json} {text : List Char} (spells : SpellsItems items text)
    {bound : Nat} (enough : text.length + 1 < bound) (rest : List Char) :
    readItems bound (text ++ ']' :: rest) = some (items, rest) := by
  induction spells generalizing bound with
  | last first blank =>
    obtain ⟨bound, rfl⟩ := Nat.exists_eq_succ_of_ne_zero (Nat.ne_zero_of_lt enough)
    rw [List.length_append] at enough
    rw [List.append_assoc]
    exact readItems_last (first bound _ (by omega))
      (by rw [skip_blanks blank, skip_cons (by decide)])
  | more first others inductionHypothesis =>
    obtain ⟨bound, rfl⟩ := Nat.exists_eq_succ_of_ne_zero (Nat.ne_zero_of_lt enough)
    rw [List.length_append, List.length_cons] at enough
    rw [List.append_assoc, List.cons_append, readItems_comma (first bound _ (by omega)),
      inductionHypothesis (by omega)]
    rfl

theorem SpellsMembers.read {members : List (String × Json)} {text : List Char}
    (spells : SpellsMembers members text) {bound : Nat} (enough : text.length + 1 < bound)
    (rest : List Char) :
    readMembers bound (text ++ '}' :: rest) = some (members, rest) := by
  induction spells generalizing bound with
  | last before key first blank =>
    obtain ⟨bound, rfl⟩ := Nat.exists_eq_succ_of_ne_zero (Nat.ne_zero_of_lt enough)
    simp only [List.length_append, List.length_cons] at enough
    simp only [List.append_assoc, List.cons_append]
    exact readMembers_last (first bound _ (by omega))
      (by rw [skip_blanks blank, skip_cons (by decide)]) before key
  | more before key first others inductionHypothesis =>
    obtain ⟨bound, rfl⟩ := Nat.exists_eq_succ_of_ne_zero (Nat.ne_zero_of_lt enough)
    simp only [List.length_append, List.length_cons] at enough
    simp only [List.append_assoc, List.cons_append]
    rw [readMembers_comma (first bound _ (by omega)) before key, inductionHypothesis (by omega)]
    rfl

theorem spells_string (text : String) : Spells (.string text) (quoted text) := by
  intro bound rest enough
  obtain ⟨bound, rfl⟩ := Nat.exists_eq_succ_of_ne_zero (Nat.ne_zero_of_lt enough)
  rw [quoted, List.cons_append, List.append_assoc, List.singleton_append, readValue_quote,
    readString_quoted]
  rfl

theorem spells_null : Spells .null "null".toList := by
  intro bound rest enough
  obtain ⟨bound, rfl⟩ := Nat.exists_eq_succ_of_ne_zero (Nat.ne_zero_of_lt enough)
  rfl

theorem spells_bool (b : Bool) : Spells (.bool b) (if b then "true" else "false").toList := by
  intro bound rest enough
  obtain ⟨bound, rfl⟩ := Nat.exists_eq_succ_of_ne_zero (Nat.ne_zero_of_lt enough)
  cases b with
  | false => rfl
  | true => rfl

theorem spells_empty_array : Spells (.array []) ['[', ']'] := by
  intro bound rest enough
  obtain ⟨bound, rfl⟩ := Nat.exists_eq_succ_of_ne_zero (Nat.ne_zero_of_lt enough)
  rfl

theorem spells_empty_object : Spells (.object []) ['{', '}'] := by
  intro bound rest enough
  obtain ⟨bound, rfl⟩ := Nat.exists_eq_succ_of_ne_zero (Nat.ne_zero_of_lt enough)
  rfl

theorem SpellsItems.array {items : List Json} {text : List Char}
    (spells : SpellsItems items text) : Spells (.array items) ('[' :: (text ++ [']'])) := by
  intro bound rest enough
  obtain ⟨bound, rfl⟩ := Nat.exists_eq_succ_of_ne_zero (Nat.ne_zero_of_lt enough)
  rw [List.length_cons, List.length_append, List.length_singleton] at enough
  have more : (skip (text ++ ']' :: rest)).head? ≠ some ']' := by
    cases spells with
    | last first _ => rw [List.append_assoc]; exact first.head _
    | more first _ => rw [List.append_assoc]; exact first.head _
  rw [List.cons_append, List.append_assoc, List.singleton_append, readValue_bracket bound more,
    spells.read (by omega)]
  rfl

theorem SpellsMembers.object {members : List (String × Json)} {text : List Char}
    (spells : SpellsMembers members text) : Spells (.object members) ('{' :: (text ++ ['}'])) := by
  intro bound rest enough
  obtain ⟨bound, rfl⟩ := Nat.exists_eq_succ_of_ne_zero (Nat.ne_zero_of_lt enough)
  rw [List.length_cons, List.length_append, List.length_singleton] at enough
  have more : (skip (text ++ '}' :: rest)).head? ≠ some '}' := by
    cases spells with
    | last before _ _ _ =>
      rw [List.append_assoc, skip_blanks before, quoted, List.append_assoc, List.cons_append,
        skip_cons (by decide), List.head?_cons]
      decide
    | more before _ _ _ =>
      rw [List.append_assoc, skip_blanks before, quoted, List.append_assoc, List.cons_append,
        skip_cons (by decide), List.head?_cons]
      decide
  rw [List.cons_append, List.append_assoc, List.singleton_append, readValue_brace bound more,
    spells.read (by omega)]
  rfl

/-- A value that is made of texts alone: it has no numbers, and all its strings have a text. -/
inductive Textual : Json → Prop where
  | null : Textual .null
  | bool (b : Bool) : Textual (.bool b)
  | string (text : String) : Textual (.string text)
  | array {items : List Json} (each : ∀ item ∈ items, Textual item) : Textual (.array items)
  | object {members : List (String × Json)} (each : ∀ member ∈ members, Textual member.2) :
      Textual (.object members)

theorem spellsItems_compact {items : List Json} (nonempty : items ≠ [])
    (each : ∀ item ∈ items, Spells item item.compact) :
    SpellsItems items (compactItems items) := by
  induction items with
  | nil => exact absurd rfl nonempty
  | cons item items inductionHypothesis =>
    have first := each item List.mem_cons_self
    cases items with
    | nil => simpa [compactItems] using SpellsItems.last first blanks_nil
    | cons next items =>
      rw [compactItems]
      · exact .more first (inductionHypothesis (List.cons_ne_nil _ _)
          fun other member => each other (List.mem_cons_of_mem _ member))
      · exact List.cons_ne_nil next items

theorem spellsMembers_compact {members : List (String × Json)} (nonempty : members ≠ [])
    (each : ∀ member ∈ members, Spells member.2 member.2.compact) :
    SpellsMembers members (compactMembers members) := by
  induction members with
  | nil => exact absurd rfl nonempty
  | cons entry members inductionHypothesis =>
    obtain ⟨key, value⟩ := entry
    have first : Spells value value.compact := each _ List.mem_cons_self
    cases members with
    | nil => simpa [compactMembers] using SpellsMembers.last blanks_nil key first blanks_nil
    | cons next members =>
      rw [compactMembers]
      · exact .more blanks_nil key first (inductionHypothesis (List.cons_ne_nil _ _)
          fun other member => each other (List.mem_cons_of_mem _ member))
      · exact List.cons_ne_nil next members

theorem Textual.spells_compact {json : Json} (textual : Textual json) :
    Spells json json.compact := by
  induction textual with
  | null => exact spells_null
  | bool b => exact spells_bool b
  | string text => exact spells_string text
  | @array items each inductionHypothesis =>
    by_cases empty : items = []
    · subst empty
      exact spells_empty_array
    · exact (spellsItems_compact empty inductionHypothesis).array
  | @object members each inductionHypothesis =>
    by_cases empty : members = []
    · subst empty
      exact spells_empty_object
    · exact (spellsMembers_compact empty inductionHypothesis).object

theorem spellsItems_pretty {items : List Json} (nonempty : items ≠ []) (level lower : Nat)
    (each : ∀ item ∈ items, Spells item (item.prettyAt level)) :
    SpellsItems items (prettyItems level items ++ newLine lower) := by
  induction items with
  | nil => exact absurd rfl nonempty
  | cons item items inductionHypothesis =>
    have first := (each item List.mem_cons_self).behind (blanks_newLine level)
    cases items with
    | nil => exact .last first (blanks_newLine lower)
    | cons next items =>
      rw [prettyItems, List.append_assoc, List.cons_append]
      · exact .more first (inductionHypothesis (List.cons_ne_nil _ _)
          fun other member => each other (List.mem_cons_of_mem _ member))
      · exact List.cons_ne_nil next items

theorem spellsMembers_pretty {members : List (String × Json)} (nonempty : members ≠ [])
    (level lower : Nat) (each : ∀ member ∈ members, Spells member.2 (member.2.prettyAt level)) :
    SpellsMembers members (prettyMembers level members ++ newLine lower) := by
  induction members with
  | nil => exact absurd rfl nonempty
  | cons entry members inductionHypothesis =>
    obtain ⟨key, value⟩ := entry
    have gap : Blanks [' '] := by simp [Blanks, isBlank]
    have first : Spells value (' ' :: value.prettyAt level) :=
      Spells.behind (each _ List.mem_cons_self) gap
    cases members with
    | nil =>
      simpa [prettyMembers] using
        SpellsMembers.last (blanks_newLine level) key first (blanks_newLine lower)
    | cons next members =>
      have others := inductionHypothesis (List.cons_ne_nil _ _)
        fun other member => each other (List.mem_cons_of_mem _ member)
      rw [prettyMembers]
      · simpa using SpellsMembers.more (blanks_newLine level) key first others
      · exact List.cons_ne_nil next members

/-- A value that is made of texts is read from its indented text. -/
theorem Textual.spells_pretty {json : Json} (textual : Textual json) (level : Nat) :
    Spells json (json.prettyAt level) := by
  induction textual generalizing level with
  | null => exact spells_null
  | bool b => exact spells_bool b
  | string text => exact spells_string text
  | @array items each inductionHypothesis =>
    by_cases empty : items = []
    · subst empty
      exact spells_empty_array
    · rw [prettyAt]
      · exact (spellsItems_pretty empty (level + 1) level
          fun item member => inductionHypothesis item member (level + 1)).array
      · exact empty
  | @object members each inductionHypothesis =>
    by_cases empty : members = []
    · subst empty
      exact spells_empty_object
    · rw [prettyAt]
      · exact (spellsMembers_pretty empty (level + 1) level
          fun member inside => inductionHypothesis member inside (level + 1)).object
      · exact empty

theorem Spells.parse {json : Json} {text : List Char} (spells : Spells json text)
    {trail : List Char} (blank : Blanks trail) : Json.parse (text ++ trail) = some json := by
  have read := spells ((text ++ trail).length + 1) trail (by rw [List.length_append]; omega)
  have done : skip trail = [] := List.dropWhile_eq_nil_iff.mpr blank
  rw [Json.parse, read]
  simp [done]

theorem parse_pretty {json : Json} (textual : Textual json) :
    parse (json.pretty ++ ['\n']) = some json :=
  (textual.spells_pretty 0).parse (blanks_newLine 0)

theorem parse_compact {json : Json} (textual : Textual json) : parse json.compact = some json := by
  simpa using textual.spells_compact.parse blanks_nil

end TerraDoc.Json
