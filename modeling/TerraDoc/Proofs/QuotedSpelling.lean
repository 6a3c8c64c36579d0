import Mathlib.Data.Nat.Digits.Defs
import TerraDoc.Hcl.Quoted
import TerraDoc.Proofs.CharacterClasses
import TerraDoc.Proofs.Results

/-!
The ways to spell a text between quotes, and that every one of them is decoded to the text. A
character can be spelled as it is, by a letter or by its code.
-/

namespace TerraDoc.Hcl.Quoted

/-- A hexadecimal digit, in either case, and what it counts. -/
def HexDigit (digit : Char) (count : Nat) : Prop :=
  count < 16 ∧ (digit = count.digitChar ∨ digit = count.digitChar.toUpper)

instance (digit : Char) (count : Nat) : Decidable (HexDigit digit count) :=
  inferInstanceAs (Decidable (_ ∧ _))

/-- Hexadecimal digits, the highest first, spell a number. -/
def HexSpells (digits : List Char) (number : Nat) : Prop :=
  ∃ counts, List.Forall₂ HexDigit digits counts ∧ number = Nat.ofDigits 16 counts.reverse

theorem hexValue?_ascii {digit : Char} {count : Nat} (value : hexValue? digit = some count) :
    digit.toNat < 128 := by
  have within {high : Char} (below : digit ≤ high) : digit.toNat ≤ high.toNat := below
  unfold hexValue? at value
  split_ifs at value with decimal lower upper
  · have := (digit_range decimal).2
    omega
  · exact lt_of_le_of_lt (within (by simpa using (Bool.and_eq_true_iff.mp lower).2)) (by decide)
  · exact lt_of_le_of_lt (within (by simpa using (Bool.and_eq_true_iff.mp upper).2)) (by decide)

theorem hexValue?_eq_some_iff {digit : Char} {count : Nat} :
    hexValue? digit = some count ↔ HexDigit digit count := by
  constructor
  · intro value
    have each : ∀ count ∈ hexValue? digit, HexDigit digit count :=
      ascii_cases (fun digit => ∀ count ∈ hexValue? digit, HexDigit digit count) (by decide)
        (hexValue?_ascii value)
    exact each count value
  · have each : ∀ count < 16, hexValue? count.digitChar = some count ∧
        hexValue? count.digitChar.toUpper = some count := by decide
    rintro ⟨bound, rfl | rfl⟩
    · exact (each count bound).1
    · exact (each count bound).2

/-- The number that hexadecimal digits alone spell. -/
def digitsNumber? (digits : List Char) : Option Nat :=
  if digits.isEmpty then none
  else (digits.mapM hexValue?).map (·.foldl (fun n digit => 16 * n + digit) 0)

theorem digitsNumber?_eq_some_iff {digits : List Char} {number : Nat} (some : digits ≠ []) :
    digitsNumber? digits = number ↔ HexSpells digits number := by
  rw [digitsNumber?, List.isEmpty_eq_false_iff.mpr some, if_neg (by decide)]
  simp only [Option.map_eq_some_iff, Option.mapM_eq_some_iff, hexValue?_eq_some_iff, HexSpells]
  refine exists_congr fun counts => and_congr_right fun _ => ?_
  rw [Nat.ofDigits_eq_foldr, List.foldr_reverse]
  simp [Nat.add_comm, eq_comm]

theorem hexNumber?_plus (digits : List Char) :
    hexNumber? ('+' :: digits) = digitsNumber? digits := rfl

theorem hexNumber?_of_ne {digits : List Char} (unsigned : digits.head? ≠ some '+') :
    hexNumber? digits = digitsNumber? digits := by
  unfold hexNumber?
  split
  · exact absurd rfl unsigned
  · rfl

theorem HexSpells.unsigned {digits : List Char} {number : Nat} (spells : HexSpells digits number) :
    digits.head? ≠ some '+' := by
  obtain ⟨counts, hex, -⟩ := spells
  cases hex with
  | nil => simp
  | cons head =>
    rintro ⟨⟩
    exact absurd (hexValue?_eq_some_iff.mpr head) (by simp [hexValue?])

theorem HexSpells.coded?_eq {digits : List Char} {c : Char} (spells : HexSpells digits c.toNat)
    (some : digits ≠ []) : coded? digits = c := by
  rw [coded?, hexNumber?_of_ne spells.unsigned, (digitsNumber?_eq_some_iff some).mpr spells,
    Option.bind_some, scalar?, if_pos (show c.toNat.isValidChar from c.valid), Char.ofNat_toNat]

/-- The signs that open a template together with a brace. -/
def isTemplateSign (c : Char) : Bool :=
  c == '$' || c == '%'

theorem unescape_plain {c : Char} {rest : List Char} (unescaped : c ≠ '\\')
    (single : isTemplateSign c = true → rest.take 2 ≠ [c, '{']) :
    unescape (c :: rest) = (c :: ·) <$> unescape rest := by
  rw [unescape.eq_def]
  split <;> simp_all [isTemplateSign]

theorem unescape_doubled {c : Char} (sign : isTemplateSign c = true) (rest : List Char) :
    unescape (c :: c :: '{' :: rest) = (c :: ·) <$> unescape ('{' :: rest) := by
  have brace : unescape ('{' :: rest) = ('{' :: ·) <$> unescape rest :=
    unescape_plain (by decide) fun sign => by cases sign
  simp only [isTemplateSign, Bool.or_eq_true, beq_iff_eq] at sign
  rw [brace]
  rcases sign with rfl | rfl <;> rw [unescape] <;> cases unescape rest <;> rfl

theorem mem_of_short? {c letter : Char} (short : short? letter = some c) :
    letter ∈ ['n', 'r', 't', '"', '\\'] := by
  unfold short? at short
  split at short <;> simp_all

theorem short?_of_mem {letter : Char} (known : letter ∈ ['n', 'r', 't', '"', '\\']) :
    ∃ c, short? letter = some c := by
  have all : ['n', 'r', 't', '"', '\\'].all (fun letter => (short? letter).isSome) = true := by
    decide
  exact Option.isSome_iff_exists.mp (List.all_eq_true.mp all letter known)

theorem unescape_letter {c letter : Char} (short : short? letter = some c) (rest : List Char) :
    unescape ('\\' :: letter :: rest) = (c :: ·) <$> unescape rest := by
  have named := mem_of_short? short
  simp only [List.mem_cons, List.not_mem_nil, or_false] at named
  rcases named with rfl | rfl | rfl | rfl | rfl <;> simp [unescape, short]

theorem unescape_code {digits : List Char} {c : Char} (four : digits.length = 4)
    (coded : coded? digits = some c) (rest : List Char) :
    unescape ('\\' :: 'u' :: (digits ++ rest)) = (c :: ·) <$> unescape rest := by
  match digits, four with
  | [_, _, _, _], _ => simp [unescape, coded]

theorem unescape_longCode {digits : List Char} {c : Char} (eight : digits.length = 8)
    (coded : coded? digits = some c) (rest : List Char) :
    unescape ('\\' :: 'U' :: (digits ++ rest)) = (c :: ·) <$> unescape rest := by
  match digits, eight with
  | [_, _, _, _, _, _, _, _], _ => simp [unescape, coded]

/-- How a character is spelled: as it is, by a letter, or by the digits of its code after `u` or
after `U`. -/
inductive Spelling where
  | raw
  | short (letter : Char)
  | code (digits : List Char)
  | longCode (digits : List Char)
deriving DecidableEq

def Spelling.Fits (c : Char) : Spelling → Prop
  | .raw => c ∉ ['\\', '"', '\r', '\n']
  | .short letter =>
      (letter, c) ∈ [('n', '\n'), ('r', '\r'), ('t', '\t'), ('"', '"'), ('\\', '\\')]
  | .code digits => digits.length = 4 ∧ HexSpells digits c.toNat
  | .longCode digits => digits.length = 8 ∧ HexSpells digits c.toNat

/-- What is written for characters with their spellings. A sign that stands as it is directly
before a brace that does is doubled. -/
def spelled : List (Char × Spelling) → List Char
  | [] => []
  | (c, .raw) :: rest =>
      if isTemplateSign c && rest.head? == some ('{', .raw) then c :: c :: spelled rest
      else c :: spelled rest
  | (_, .short letter) :: rest => '\\' :: letter :: spelled rest
  | (_, .code digits) :: rest => '\\' :: 'u' :: (digits ++ spelled rest)
  | (_, .longCode digits) :: rest => '\\' :: 'U' :: (digits ++ spelled rest)

theorem head?_of_spelled_brace {choices : List (Char × Spelling)} {rest : List Char}
    (brace : spelled choices = '{' :: rest) : choices.head? = some ('{', .raw) := by
  cases choices with
  | nil => cases brace
  | cons choice others =>
    obtain ⟨c, spelling⟩ := choice
    cases spelling with
    | raw =>
      rw [spelled] at brace
      split at brace <;> rw [List.head?_cons, (List.cons.inj brace).1]
    | short | code | longCode => exact absurd (List.cons.inj brace).1 (by decide)

/-- In what is written no sign alone stands before a brace. -/
theorem spelled_ne_template {c : Char} (sign : isTemplateSign c = true)
    (choices : List (Char × Spelling)) : (spelled choices).take 2 ≠ [c, '{'] := by
  have slash : c ≠ '\\' := by
    rintro rfl
    cases sign
  intro template
  cases choices with
  | nil => cases template
  | cons choice rest =>
    obtain ⟨d, spelling⟩ := choice
    cases spelling with
    | raw =>
      rw [spelled] at template
      split at template
      · obtain ⟨rfl, brace⟩ := List.cons.inj template
        obtain ⟨rfl, -⟩ := List.cons.inj brace
        cases sign
      · rename_i apart
        obtain ⟨rfl, brace⟩ := List.cons.inj template
        cases text : spelled rest with
        | nil => simp [text] at brace
        | cons first others =>
          rw [text] at brace
          obtain ⟨rfl, -⟩ := List.cons.inj brace
          exact apart (by rw [sign, head?_of_spelled_brace text]; rfl)
    | short | code | longCode => exact slash (List.cons.inj template).1.symm

/-- What is written for characters is decoded to them. -/
theorem unescape_spelled {choices : List (Char × Spelling)}
    (fits : ∀ choice ∈ choices, choice.2.Fits choice.1) :
    unescape (spelled choices) = .ok (choices.map Prod.fst) := by
  induction choices with
  | nil => rfl
  | cons choice rest ih =>
    have later := ih fun choice member => fits choice (List.mem_cons_of_mem _ member)
    have here := fits choice List.mem_cons_self
    obtain ⟨c, spelling⟩ := choice
    cases spelling with
    | raw =>
      have unescaped : c ≠ '\\' := fun same => here (same ▸ List.mem_cons_self)
      rw [spelled]
      split
      · rename_i doubled
        simp only [Bool.and_eq_true, beq_iff_eq] at doubled
        obtain ⟨sign, brace⟩ := doubled
        obtain ⟨others, rfl⟩ : ∃ others, rest = ('{', .raw) :: others := by
          cases rest with
          | nil => cases brace
          | cons first others => exact ⟨others, congrArg (· :: others) (Option.some.inj brace)⟩
        have plain : spelled (('{', .raw) :: others) = '{' :: spelled others := rfl
        rw [plain, unescape_doubled sign, ← plain, later]
        rfl
      · rw [unescape_plain unescaped fun sign => spelled_ne_template sign rest, later]
        rfl
    | short letter =>
      have named : short? letter = some c := by
        have all : ∀ pair ∈ [('n', '\n'), ('r', '\r'), ('t', '\t'), ('"', '"'), ('\\', '\\')],
            short? pair.1 = some pair.2 := by decide
        exact all _ here
      rw [spelled, unescape_letter named, later]
      rfl
    | code digits =>
      have some : digits ≠ [] := List.ne_nil_of_length_pos (by rw [here.1]; decide)
      rw [spelled, unescape_code here.1 (here.2.coded?_eq some), later]
      rfl
    | longCode digits =>
      have some : digits ≠ [] := List.ne_nil_of_length_pos (by rw [here.1]; decide)
      rw [spelled, unescape_longCode here.1 (here.2.coded?_eq some), later]
      rfl

theorem trim_quotes (inner : List Char) :
    Text.trim ('"' :: (inner ++ ['"'])) = '"' :: (inner ++ ['"']) := by
  apply Text.trim_eq_self
  · rintro c ⟨⟩
    decide
  · intro c last
    rw [← List.cons_append, List.getLast?_concat] at last
    cases last
    decide

theorem decode_quotes {inner text : List Char} (decoded : unescape inner = .ok text) :
    decode ('"' :: (inner ++ ['"'])) = .ok text := by
  have between : inner? ('"' :: (inner ++ ['"'])) = some inner := by simp [inner?]
  simp [decode, trim_quotes, between, decoded]

/-- However the characters of a text are spelled between quotes, they are decoded to the text. -/
theorem decode_undoes_spelling {text : List Char} {choices : List (Char × Spelling)}
    (spells : choices.map Prod.fst = text) (fits : ∀ choice ∈ choices, choice.2.Fits choice.1) :
    decode ('"' :: (spelled choices ++ ['"'])) = .ok text :=
  decode_quotes (spells ▸ unescape_spelled fits)

theorem decode_undoes_spelling_mixed :
    let choices : List (Char × Spelling) :=
      [('$', .raw), ('$', .raw), ('{', .raw), ('%', .code "0025".toList), ('{', .raw),
        ('😊', .longCode "0001f60A".toList), ('"', .short '"')]
    (∀ choice ∈ choices, choice.2.Fits choice.1) ∧
      spelled choices = "$$$".toList ++ '{' :: ("\\u0025".toList ++ '{' ::
        "\\U0001f60A\\\"".toList) ∧
      decode ('"' :: (spelled choices ++ ['"'])) = .ok ['$', '$', '{', '%', '{', '😊', '"'] := by
  intro choices
  have code : Spelling.Fits '%' (.code "0025".toList) :=
    ⟨rfl, [0, 0, 2, 5], by decide, by decide⟩
  have longCode : Spelling.Fits '😊' (.longCode "0001f60A".toList) :=
    ⟨rfl, [0, 0, 0, 1, 15, 6, 0, 10], by decide, by decide⟩
  have sign : '$' ∉ ['\\', '"', '\r', '\n'] := by decide
  have brace : '{' ∉ ['\\', '"', '\r', '\n'] := by decide
  have fits : ∀ choice ∈ choices, choice.2.Fits choice.1 := by
    simp only [choices, List.forall_mem_cons]
    exact ⟨sign, sign, brace, code, brace, longCode, by simp [Spelling.Fits], by simp⟩
  exact ⟨fits, by decide, decode_undoes_spelling rfl fits⟩

end TerraDoc.Hcl.Quoted
