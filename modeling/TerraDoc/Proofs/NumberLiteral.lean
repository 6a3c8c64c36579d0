import Mathlib.Tactic.IntervalCases
import TerraDoc.Proofs.NumberValue

namespace TerraDoc.Number

/-- A sign as it is written, and whether it makes a number negative. -/
inductive Sign : List Char → Bool → Prop where
  | none : Sign [] false
  | plus : Sign ['+'] false
  | minus : Sign ['-'] true

def Digits (text : List Char) : Prop :=
  ∀ c ∈ text, c.isDigit = true

/-- The positional value of a string of digits. -/
def digitsValue (digits : List Char) : Nat :=
  Nat.ofDigitChars 10 digits 0

/-- Digits with at most one point, as the digits before and after it. -/
inductive Mantissa : List Char → List Char → List Char → Prop where
  | integer (whole : List Char) (shape : Digits whole) (some : whole ≠ []) :
      Mantissa whole whole []
  | decimal (whole fraction : List Char) (shape : Digits (whole ++ fraction))
      (some : whole ++ fraction ≠ []) :
      Mantissa (whole ++ '.' :: fraction) whole fraction

/-- A signed exponent of one to nine digits. -/
inductive Exponent : List Char → Int → Prop where
  | signed (sign digits : List Char) (negative : Bool) (written : Sign sign negative)
      (shape : Digits digits) (some : digits ≠ []) (few : digits.length ≤ 9) :
      Exponent (sign ++ digits) (if negative then -digitsValue digits else digitsValue digits)

/-- Nothing, or a mark and an exponent. -/
inductive Power : List Char → Int → Prop where
  | none : Power [] 0
  | marked (mark : Char) (text : List Char) (exponent : Int) (isMark : mark = 'e' ∨ mark = 'E')
      (written : Exponent text exponent) : Power (mark :: text) exponent

/-- A text spells a literal: sign, mantissa and power, with white space around them. -/
inductive Spells (text : List Char) (literal : Literal) : Prop where
  | parts (sign mantissa power : List Char)
      (spelled : Text.trim text = sign ++ (mantissa ++ power))
      (signed : Sign sign literal.negative)
      (pointed : Mantissa mantissa literal.whole literal.fraction)
      (powered : Power power literal.exponent)

def Literal.value (literal : Literal) : ℚ :=
  Number.signed literal.negative
    (digitsValue (literal.whole ++ literal.fraction) *
      10 ^ (literal.exponent - literal.fraction.length))

/-- The rational that a text denotes. -/
def Denotes (text : List Char) (q : ℚ) : Prop :=
  ∃ literal, Spells text literal ∧ literal.value = q

/-- Zero, or a rational whose significant digits all stand within 4096 places of the point. -/
def WithinRange (q : ℚ) : Prop :=
  q = 0 ∨ ∃ (d : Nat) (x : Int), |q| = d * 10 ^ x ∧ ¬ 10 ∣ d ∧ |x| ≤ 4096 ∧
    x + (Nat.toDigits 10 d).length ≤ 4096

theorem sign_readSign (text : List Char) :
    ∃ sign, Sign sign (readSign text).1 ∧ text = sign ++ (readSign text).2 := by
  fun_cases readSign text with
  | case1 rest => exact ⟨['-'], .minus, rfl⟩
  | case2 rest => exact ⟨['+'], .plus, rfl⟩
  | case3 => exact ⟨[], .none, rfl⟩

theorem readSign_append {sign : List Char} {negative : Bool} (written : Sign sign negative)
    (rest : List Char) (bare : ∀ c ∈ rest.head?, c ≠ '-' ∧ c ≠ '+') :
    readSign (sign ++ rest) = (negative, rest) := by
  cases written with
  | none =>
    cases rest with
    | nil => rfl
    | cons c rest =>
      obtain ⟨minus, plus⟩ := bare c rfl
      simp [readSign, minus, plus]
  | plus => rfl
  | minus => rfl

theorem digits_head {digits : List Char} (shape : Digits digits) :
    ∀ c ∈ digits.head?, c ≠ '-' ∧ c ≠ '+' := by
  intro c first
  have digit := shape c (List.mem_of_mem_head? first)
  constructor <;> rintro rfl <;> simp at digit

theorem readExponent_eq_some_iff (text : List Char) (exponent : Int) :
    readExponent text = some exponent ↔ Exponent text exponent := by
  constructor
  · intro read
    obtain ⟨sign, written, split⟩ := sign_readSign text
    simp only [readExponent] at read
    split at read
    · simp at read
    · rename_i accepted
      simp only [Bool.or_eq_true, Bool.not_eq_true', decide_eq_true_eq, not_or, List.isEmpty_iff,
        Bool.not_eq_false, List.all_eq_true, Nat.not_lt] at accepted
      obtain ⟨⟨some, shape⟩, few⟩ := accepted
      rw [split, ← Option.some.inj read]
      exact .signed sign _ _ written shape some few
  · rintro ⟨sign, digits, negative, written, shape, some, few⟩
    have all : digits.all Char.isDigit = true := List.all_eq_true.mpr shape
    have few : ¬ 9 < digits.length := Nat.not_lt.mpr few
    simp [readExponent, readSign_append written digits (digits_head shape), some, all, few,
      digitsValue]

theorem readMantissa_eq_some_iff (text whole fraction : List Char) :
    readMantissa text = some (whole, fraction) ↔ Mantissa text whole fraction := by
  have point : ∀ digits, Digits digits → '.' ∉ digits := by
    intro digits shape inside
    simpa using shape '.' inside
  constructor
  · intro read
    simp only [readMantissa] at read
    split at read
    · simp at read
    split at read
    · rename_i some shape
      simp only [Option.some.injEq, Prod.mk.injEq] at read
      obtain ⟨rfl, rfl⟩ := read
      simp only [Bool.and_eq_true, List.isEmpty_iff] at some
      rw [List.all_eq_true] at shape
      cases found : Text.cut '.' text with
      | none =>
        simp only [found, Option.getD_none, and_true, List.append_nil] at some shape ⊢
        exact .integer text shape some
      | some parts =>
        obtain ⟨before, after⟩ := parts
        simp only [found, Option.getD_some] at some shape ⊢
        rw [((Text.cut_eq_some_iff '.' text before after).mp found).1]
        exact .decimal before after shape (by simpa using some)
    · simp at read
  · rintro (⟨_, shape, some⟩ | ⟨_, _, shape, some⟩)
    · have whole : Text.cut '.' text = none := (Text.cut_eq_none_iff '.' text).mpr (point _ shape)
      have all : text.all Char.isDigit = true := List.all_eq_true.mpr shape
      simp [readMantissa, whole, some, all]
    · have clean : '.' ∉ whole := fun inside => point _ shape (List.mem_append_left _ inside)
      have parts := (Text.cut_eq_some_iff '.' (whole ++ '.' :: fraction) whole fraction).mpr
        ⟨rfl, clean⟩
      have all : (whole ++ fraction).all Char.isDigit = true := List.all_eq_true.mpr shape
      have kept : ¬ (whole = [] ∧ fraction = []) := by simpa using some
      simp only [readMantissa, parts, Option.getD_some, Bool.and_eq_true, List.isEmpty_iff, kept,
        ↓reduceIte, all]

theorem mantissa_unmarked {text whole fraction : List Char} (pointed : Mantissa text whole fraction) :
    ∀ c ∈ text, isExponentMark c = false := by
  have unmarked : ∀ c : Char, c.isDigit = true → isExponentMark c = false := by
    intro c digit
    apply Bool.eq_false_iff.mpr
    intro mark
    simp only [isExponentMark, Bool.or_eq_true, beq_iff_eq] at mark
    rcases mark with rfl | rfl <;> simp at digit
  intro c inside
  cases pointed with
  | integer _ shape => exact unmarked c (shape c inside)
  | decimal _ _ shape =>
    rcases List.mem_append.mp inside with before | rest
    · exact unmarked c (shape c (List.mem_append_left _ before))
    · rcases List.mem_cons.mp rest with rfl | after
      · rfl
      · exact unmarked c (shape c (List.mem_append_right _ after))

theorem mantissa_head {text whole fraction : List Char} (pointed : Mantissa text whole fraction)
    (rest : List Char) : ∀ c ∈ (text ++ rest).head?, c ≠ '-' ∧ c ≠ '+' := by
  intro c first
  cases pointed with
  | integer _ shape some =>
    rw [List.head?_append, List.head?_eq_some_head some] at first
    exact digits_head shape c (by rwa [List.head?_eq_some_head some])
  | decimal _ _ shape =>
    cases whole with
    | nil =>
      obtain rfl : '.' = c := by simpa using first
      decide
    | cons w whole =>
      have front : Digits (w :: whole) := fun d inside => shape d (List.mem_append_left _ inside)
      exact digits_head front c (by simpa using first)

theorem span_mantissa {mantissa power whole fraction : List Char} {exponent : Int}
    (pointed : Mantissa mantissa whole fraction) (powered : Power power exponent) :
    (mantissa ++ power).takeWhile (!isExponentMark ·) = mantissa ∧
      (mantissa ++ power).dropWhile (!isExponentMark ·) = power := by
  have unmarked : ∀ c ∈ mantissa, (!isExponentMark c) = true := by
    intro c inside
    simp [mantissa_unmarked pointed c inside]
  rw [List.takeWhile_append_of_pos unmarked, List.dropWhile_append_of_pos unmarked]
  cases powered with
  | none => simp
  | marked mark text _ isMark =>
    have marked : isExponentMark mark = true := by simpa [isExponentMark] using isMark
    simp [marked]

theorem readLiteral_eq_some_iff (text : List Char) (literal : Literal) :
    readLiteral text = some literal ↔ Spells text literal := by
  obtain ⟨negative, whole, fraction, exponent⟩ := literal
  constructor
  · intro read
    obtain ⟨sign, signed, split⟩ := sign_readSign (Text.trim text)
    rw [← List.takeWhile_append_dropWhile (p := (!isExponentMark ·))
      (l := (readSign (Text.trim text)).2)] at split
    simp only [readLiteral, Option.bind_eq_bind, Option.bind_eq_some_iff] at read
    obtain ⟨⟨before, after⟩, pointed, read⟩ := read
    have pointed := (readMantissa_eq_some_iff _ _ _).mp pointed
    cases rest : (readSign (Text.trim text)).2.dropWhile (!isExponentMark ·) with
    | nil =>
      simp only [rest] at read split
      rw [← Option.some.inj read]
      exact .parts sign _ _ split signed pointed .none
    | cons mark power =>
      have first := List.head?_dropWhile_not (!isExponentMark ·) (readSign (Text.trim text)).2
      have isMark : mark = 'e' ∨ mark = 'E' := by
        rw [rest] at first
        simpa [isExponentMark, ← or_iff_not_imp_left] using first
      simp only [rest, Option.bind_eq_some_iff] at read split
      obtain ⟨exponent, powered, read⟩ := read
      rw [← Option.some.inj read]
      exact .parts sign _ _ split signed pointed
        (.marked mark power _ isMark ((readExponent_eq_some_iff _ _).mp powered))
  · intro spells
    cases spells with
    | parts sign mantissa power spelled signed pointed powered =>
    have powered : Power power exponent := powered
    obtain ⟨before, after⟩ := span_mantissa pointed powered
    have unsigned := readSign_append signed (mantissa ++ power) (mantissa_head pointed power)
    simp only [readLiteral, spelled, unsigned, before, after,
      (readMantissa_eq_some_iff _ _ _).mpr pointed, Option.bind_eq_bind, Option.bind_some]
    cases powered with
    | none => rfl
    | marked mark text _ isMark written =>
      simp [(readExponent_eq_some_iff _ _).mpr written]

theorem toRat_ofLiteral (literal : Literal) :
    (ofScaled literal.negative literal.coefficient literal.scale).toRat = literal.value :=
  toRat_ofScaled _ _ _

/-- The test of a number is the range of its rational. -/
theorem inRange_iff (n : Number) : n.inRange = true ↔ WithinRange n.toRat := by
  by_cases zero : n.coefficient = 0
  · simp [inRange, isZero, WithinRange, zero, toRat]
  · have nonzero : n.toRat ≠ 0 := by
      rw [toRat, Ne, signed_eq_zero_iff, scaled_eq_zero_iff]
      exact zero
    have magnitude : |n.toRat| = n.coefficient * 10 ^ n.exponent := by
      rw [toRat, abs_signed, abs_of_nonneg (scaled_nonneg _ _)]
    have final := n.normal.2 zero
    have test : n.inRange = true ↔
        |n.exponent| ≤ range ∧ n.exponent + n.digits.length ≤ range := by
      simp [inRange, isZero, zero]
    rw [test, WithinRange, magnitude]
    constructor
    · rintro ⟨near, below⟩
      exact .inr ⟨n.coefficient, n.exponent, rfl, by omega, near, below⟩
    · rintro (none | ⟨d, x, same, whole, near, below⟩)
      · exact absurd none nonzero
      · obtain ⟨rfl, rfl⟩ := scaled_injective final (by omega) same
        exact ⟨near, below⟩

theorem parse_eq_ok_iff (text : List Char) (n : Number) :
    parse text = .ok n ↔ Denotes text n.toRat ∧ WithinRange n.toRat := by
  rw [← inRange_iff]
  constructor
  · intro read
    unfold parse at read
    split at read
    · rename_i literal found
      simp only [ofLiteral] at read
      split at read
      · rename_i within
        obtain rfl := Except.ok.inj read
        exact ⟨⟨literal, (readLiteral_eq_some_iff _ _).mp found, (toRat_ofLiteral literal).symm⟩,
          within⟩
      · simp at read
    · simp at read
  · rintro ⟨⟨literal, spells, value⟩, within⟩
    have number := toRat_injective ((toRat_ofLiteral literal).trans value)
    simp [parse, (readLiteral_eq_some_iff _ _).mpr spells, ofLiteral, number, within]

end TerraDoc.Number
