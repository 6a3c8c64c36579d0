import TerraDoc.Hcl.Block
import TerraDoc.Proofs.ExponentElision
import TerraDoc.Proofs.FileTracking

/-!
Normalisation and the files that are read after it. When the tokens of a file are regular, what the
normaliser adds stands in number tokens only, and no number token is missed by it.
-/

namespace TerraDoc.Hcl

open Exponent

variable {source : List Char} {file : File}

/-- A number with a fraction of one zero and an exponent. -/
def HasZeroFraction (number : List Char) : Prop :=
  ∃ whole mark sign power, number = whole ++ '.' :: '0' :: mark :: (sign ++ power) ∧
    (∀ c ∈ whole, c.isDigit = true) ∧ isMark mark = true ∧
    (sign = [] ∨ ∃ c, sign = [c] ∧ isSign c = true) ∧
    power ≠ [] ∧ ∀ c ∈ power, c.isDigit = true

/-- The position after the first digits of a slice. -/
def Slice.afterDigits (slice : Slice) : Nat :=
  slice.start + (slice.text.takeWhile Char.isDigit).length

/-- A check that most regular tokens pass. -/
def Token.isOrdinary (source : List Char) : Token → Bool
  | text slice => !slice.text.contains '\n'
  | opening slice => before? source slice.start != slice.text.head?
  | number slice => !(['0', 'x'].isPrefixOf slice.text) && slice.text.any isMark
  | comment _ | name _ | quoted _ | label _ => true
  | labelText _ | index _ | heredoc _ _ => false

theorem Token.regular_of_isOrdinary {token : Token} (ordinary : token.isOrdinary source = true) :
    token.Regular source := by
  cases token with
  | text slice => simpa [isOrdinary, Token.Regular] using ordinary
  | opening slice => simpa [isOrdinary, Token.Regular] using ordinary
  | number slice =>
    simp only [isOrdinary, Bool.and_eq_true, Bool.not_eq_true', List.any_eq_true] at ordinary
    obtain ⟨decimal, c, member, mark⟩ := ordinary
    refine ⟨fun hexadecimal => ?_, fun _ unmarked => ?_⟩
    · rw [List.isPrefixOf_iff_prefix.mpr hexadecimal] at decimal
      cases decimal
    · rw [unmarked c member] at mark
      cases mark
  | comment | name | quoted | label => trivial
  | labelText | index | heredoc => cases ordinary

theorem powerFollows_of_shape {sign power : List Char} (after : List Char)
    (signed : sign = [] ∨ ∃ c, sign = [c] ∧ isSign c = true) (nonempty : power ≠ [])
    (digits : ∀ c ∈ power, c.isDigit = true) : powerFollows (sign ++ (power ++ after)) = true := by
  cases power with
  | nil => exact absurd rfl nonempty
  | cons d power =>
    have digit := digits d List.mem_cons_self
    rcases signed with rfl | ⟨c, rfl, isSigned⟩
    · cases more : power ++ after <;> simp [powerFollows, digit, more]
    · simp [powerFollows, digit, isSigned]

theorem zeroFraction_of_recorded {slice : Slice} (recorded : Recorded source (.number slice))
    (zero : HasZeroFraction slice.text) : ZeroFraction source slice.afterDigits := by
  obtain ⟨whole, mark, sign, power, shape, digits, isMarked, signed, nonempty, isPower⟩ := zero
  obtain ⟨⟨after, spans⟩, -, reached⟩ := recorded
  have stops : slice.afterDigits = slice.start + whole.length := by
    rw [Slice.afterDigits, shape, List.takeWhile_append_of_pos digits]
    simp [Char.isDigit]
  rw [stops]
  refine ⟨reached rfl whole.length (by simp [Token.slice, shape]), mark, sign ++ (power ++ after),
    ?_, isMarked, powerFollows_of_shape after signed nonempty isPower⟩
  refine drop_of_split whole ?_
  rw [← show slice.text ++ after = source.drop slice.start from spans, shape]
  simp

/-- What the normaliser adds to a source stands in the number tokens of the file that is read, and
every other token has the text that it has in the source, before it by what is added before it. -/
theorem exponents_inside_numbers (read : parse? source = some file) (regular : file.Regular) :
    (∀ place ∈ insertions source, ['.', '0'] <+: file.source.drop place ∧
      ∃ slice, Token.number slice ∈ file.tokens ∧ slice.start ≤ place ∧ place + 2 ≤ slice.stop) ∧
    elide (insertions source) file.source = source ∧
    ∀ token ∈ file.tokens, token.isNumber = false → ∃ place,
      place + 2 * (insertions source).countP (· < token.slice.start) = token.slice.start ∧
      token.slice.text <+: source.drop place := by
  obtain ⟨normal, points⟩ := normalize_occurs source
  have scanned := readFile?_scanned read normal regular
  have same : file.source = normalize source := by
    obtain ⟨content, c, -, -, rfl⟩ := readFile?_cases read
    rfl
  rw [← same] at points
  refine ⟨fun place member => ?_, ?_, fun token member other => ?_⟩
  · obtain ⟨point, text⟩ := points place member
    obtain ⟨slice, number, start, stop⟩ := scanned.points place point
    exact ⟨text, slice, number, start, stop⟩
  · rw [same]
    exact elide_insertions source
  · obtain ⟨spans, points', -⟩ := scanned.recorded token member
    have clear (q : Nat) (added : q ∈ insertions source) :
        q + 1 < token.slice.start ∨ token.slice.start + token.slice.text.length ≤ q := by
      have outside := points' q (points q added).1
      rw [other] at outside
      exact outside.resolve_left (by simp)
    rw [insertions_eq] at clear ⊢
    obtain ⟨place, position, text⟩ := take_drop_normalizeFrom (Nat.zero_le _) clear
    refine ⟨place, by omega, ?_⟩
    rw [same] at spans
    have shown := (List.prefix_iff_eq_take.mp spans).trans text
    exact List.prefix_iff_eq_take.mpr shown

/-- The names and numbers of a comment and of an interpolation. -/
theorem exponents_inside_numbers_interpolation :
    ∃ file, parse? "a = \"x$\x7b1e3\x7d\" # 1e3\n".toList = some file ∧ file.Regular ∧
      ∀ place ∈ insertions "a = \"x$\x7b1e3\x7d\" # 1e3\n".toList,
        ['.', '0'] <+: file.source.drop place ∧ ∃ slice, Token.number slice ∈ file.tokens ∧
          slice.start ≤ place ∧ place + 2 ≤ slice.stop := by
  have checked : ((parse? "a = \"x$\x7b1e3\x7d\" # 1e3\n".toList).any fun file =>
      file.tokens.all (Token.isOrdinary file.source)) = true := by decide +kernel
  obtain ⟨file, read, ordinary⟩ := (Option.any_eq_true _ _).mp checked
  have regular : file.Regular := fun token member =>
    Token.regular_of_isOrdinary (List.all_eq_true.mp ordinary token member)
  exact ⟨file, read, regular, (exponents_inside_numbers read regular).1⟩

/-- A string that goes over a line feed. -/
def stringOfTwoLines : List Char :=
  "variable \"x\" \x7b\n  default = \"a\n1e3\"\n\x7d\n".toList

/-- In a string that goes over a line feed the normaliser adds to the text of the string. -/
theorem exponent_added_in_string :
    ∃ file, parse? stringOfTwoLines = some file ∧ ∃ place ∈ insertions stringOfTwoLines,
      ['.', '0'] <+: file.source.drop place ∧ ¬ ∃ slice, Token.number slice ∈ file.tokens ∧
        slice.start ≤ place ∧ place + 2 ≤ slice.stop := by
  have checked : ((parse? stringOfTwoLines).any fun file =>
      ['.', '0'].isPrefixOf (file.source.drop 31) && !file.tokens.any Token.isNumber) = true := by
    decide +kernel
  obtain ⟨file, read, added⟩ := (Option.any_eq_true _ _).mp checked
  rw [Bool.and_eq_true, Bool.not_eq_true'] at added
  refine ⟨file, read, 31, by decide +kernel, List.isPrefixOf_iff_prefix.mp added.1, ?_⟩
  rintro ⟨slice, member, -⟩
  have found : file.tokens.any Token.isNumber = true := List.any_eq_true.mpr ⟨_, member, rfl⟩
  rw [added.2] at found
  cases found

/-- A source that is read and normal comes back when points and zeros are taken from any of its
number tokens that have a zero fraction. -/
theorem zero_fractions_restored (read : readFile? source = some file)
    (normal : normalize source = source) (regular : file.Regular) {chosen : List Slice}
    (numbers : ∀ slice ∈ chosen, Token.number slice ∈ file.tokens ∧ HasZeroFraction slice.text) :
    normalize (elide (chosen.map Slice.afterDigits) source) = source ∧
      parse? (elide (chosen.map Slice.afterDigits) source) = some file := by
  have unmarked := (normalize_occurs source).1
  rw [normal] at unmarked
  have scanned := readFile?_scanned read unmarked regular
  obtain ⟨content, c, -, -, rfl⟩ := readFile?_cases read
  have zeros (q : Nat) (member : q ∈ chosen.map Slice.afterDigits) : ZeroFraction source q := by
    obtain ⟨slice, inside, rfl⟩ := List.mem_map.mp member
    obtain ⟨number, zero⟩ := numbers slice inside
    exact zeroFraction_of_recorded (scanned.recorded _ number) zero
  have restored := normalize_elide unmarked scanned.opened zeros
  exact ⟨restored, by rw [parse?, restored, read]⟩

/-- Whether a token is a number of a place and a text. -/
def Token.isNumberAt (slice : Slice) : Token → Bool
  | number other => other == slice
  | _ => false

theorem Token.mem_of_isNumberAt {slice : Slice} {tokens : List Token}
    (found : tokens.any (Token.isNumberAt slice) = true) : Token.number slice ∈ tokens := by
  obtain ⟨token, member, same⟩ := List.any_eq_true.mp found
  cases token with
  | number other =>
    obtain rfl : other = slice := by simpa [isNumberAt] using same
    exact member
  | _ => cases same

theorem hasZeroFraction_thousand : HasZeroFraction ['1', '.', '0', 'e', '3'] :=
  ⟨['1'], 'e', [], ['3'], rfl, by simp, rfl, .inl rfl, by simp, by simp⟩

/-- An exponent in an interpolation of a string, and one in a comment. -/
def stringExponent : List Char :=
  "a = \"x$\x7b1.0e3\x7d\" # 1e3\n".toList

theorem zero_fractions_restored_interpolation :
    ∃ file, readFile? stringExponent = some file ∧ normalize stringExponent = stringExponent ∧
      file.Regular ∧ Token.number ⟨8, ['1', '.', '0', 'e', '3']⟩ ∈ file.tokens ∧
      parse? "a = \"x$\x7b1e3\x7d\" # 1e3\n".toList = some file := by
  have checked : ((readFile? stringExponent).any fun file =>
      file.tokens.all (Token.isOrdinary file.source) &&
        file.tokens.any (Token.isNumberAt ⟨8, ['1', '.', '0', 'e', '3']⟩)) = true := by
    decide +kernel
  obtain ⟨file, read, good⟩ := (Option.any_eq_true _ _).mp checked
  rw [Bool.and_eq_true] at good
  have regular : file.Regular := fun token member =>
    Token.regular_of_isOrdinary (List.all_eq_true.mp good.1 token member)
  have number := Token.mem_of_isNumberAt good.2
  have normal : normalize stringExponent = stringExponent := by decide +kernel
  have short : "a = \"x$\x7b1e3\x7d\" # 1e3\n".toList = elide
      ([Slice.mk 8 ['1', '.', '0', 'e', '3']].map Slice.afterDigits) stringExponent := by
    decide +kernel
  refine ⟨file, read, normal, regular, number, ?_⟩
  rw [short]
  refine (zero_fractions_restored read normal regular fun slice member => ?_).2
  rw [List.mem_singleton.mp member]
  exact ⟨number, hasZeroFraction_thousand⟩

/-- An exponent in an interpolation of a heredoc. -/
def heredocExponent : List Char :=
  "a = <<EOT\n$\x7b1.0e3\x7d\nEOT\n".toList

/-- In a heredoc the normaliser misses an exponent, and the file is not read. -/
theorem exponent_missed_in_heredoc :
    ∃ file, readFile? heredocExponent = some file ∧ normalize heredocExponent = heredocExponent ∧
      (∃ slice inside, Token.heredoc slice inside ∈ file.tokens ∧
        Token.number ⟨12, ['1', '.', '0', 'e', '3']⟩ ∈ inside) ∧
      HasZeroFraction ['1', '.', '0', 'e', '3'] ∧
      normalize (elide [13] heredocExponent) ≠ heredocExponent ∧
      parse? (elide [13] heredocExponent) = none := by
  have checked : ((readFile? heredocExponent).any fun file => file.tokens.any fun
      | .heredoc _ inside => inside.any (Token.isNumberAt ⟨12, ['1', '.', '0', 'e', '3']⟩)
      | _ => false) = true := by decide +kernel
  obtain ⟨file, read, found⟩ := (Option.any_eq_true _ _).mp checked
  obtain ⟨token, member, number⟩ := List.any_eq_true.mp found
  have missed : (parse? (elide [13] heredocExponent)).isNone = true := by decide +kernel
  refine ⟨file, read, by decide +kernel, ?_, hasZeroFraction_thousand, by decide +kernel,
    Option.isNone_iff_eq_none.mp missed⟩
  split at number
  · exact ⟨_, _, member, Token.mem_of_isNumberAt number⟩
  · cases number

end TerraDoc.Hcl
