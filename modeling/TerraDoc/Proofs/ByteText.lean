import TerraDoc.Hcl.ByteScan
import TerraDoc.Proofs.ByteOrder
import TerraDoc.Proofs.CharacterClasses

namespace TerraDoc

namespace Text.Utf8

variable {c : Char} {test : Char → Bool}

theorem bytes_append (first second : List Char) :
    bytes (first ++ second) = bytes first ++ bytes second := by
  simp [bytes, encode]

theorem bytes_cons (c : Char) (rest : List Char) : bytes (c :: rest) = bytes [c] ++ bytes rest :=
  bytes_append [c] rest

theorem bytes_ascii (ascii : c.toNat < 128) (rest : List Char) :
    bytes (c :: rest) = c :: bytes rest := by
  have single : String.utf8EncodeChar c = [c.val.toUInt8] := by
    apply String.utf8EncodeChar_eq_singleton
    rw [Char.utf8Size_eq_one_iff, UInt32.le_iff_toNat_le]
    exact Nat.le_of_lt_succ ascii
  have same : Char.ofUInt8 c.val.toUInt8 = c := by
    apply Char.toNat_inj.mp
    show c.val.toUInt8.toNat = c.val.toNat
    rw [UInt32.toNat_toUInt8]
    exact Nat.mod_eq_of_lt (Nat.lt_trans ascii (by decide))
  rw [bytes, encode, List.flatMap_cons, single, List.singleton_append, List.map_cons, same]
  rfl

theorem byteLength_ascii (ascii : c.toNat < 128) (rest : List Char) :
    byteLength (c :: rest) = byteLength rest + 1 := by
  rw [← length_bytes, bytes_ascii ascii, List.length_cons, length_bytes]

theorem one_lt_byteLength (high : 128 ≤ c.toNat) : 1 < byteLength [c] := by
  have some_ := c.utf8Size_pos
  have many : c.utf8Size ≠ 1 := by
    rw [ne_eq, Char.utf8Size_eq_one_iff, UInt32.le_iff_toNat_le]
    exact Nat.not_le.mpr high
  rw [byteLength_cons, byteLength_nil]
  omega

theorem bytes_high (high : 128 ≤ c.toNat) {b : Char} (member : b ∈ bytes [c]) : 128 ≤ b.toNat := by
  simp only [bytes, encode, List.flatMap_cons, List.flatMap_nil, List.append_nil,
    List.mem_map] at member
  obtain ⟨byte, inside, rfl⟩ := member
  show 128 ≤ byte.toNat
  rcases mem_utf8EncodeChar inside with same | above
  · exact same ▸ high
  · exact above

theorem exists_first_byte (c : Char) : ∃ b more, bytes [c] = b :: more := by
  have size := c.utf8Size_pos
  apply List.exists_cons_of_length_pos
  rw [length_bytes, byteLength_cons]
  omega

theorem bytes_of_ascii {text : List Char} (ascii : ∀ c ∈ text, c.toNat < 128) :
    bytes text = text := by
  induction text with
  | nil => rfl
  | cons c text ih =>
    rw [bytes_ascii (ascii c List.mem_cons_self),
      ih fun d member => ascii d (List.mem_cons_of_mem c member)]

theorem byteLength_of_ascii {text : List Char} (ascii : ∀ c ∈ text, c.toNat < 128) :
    byteLength text = text.length := by
  rw [← length_bytes, bytes_of_ascii ascii]

theorem takeWhile_bytes (ascii : ∀ c, test c = true → c.toNat < 128) (text : List Char) :
    (bytes text).takeWhile test = text.takeWhile test := by
  induction text with
  | nil => rfl
  | cons c text ih =>
    by_cases low : c.toNat < 128
    · rw [bytes_ascii low, List.takeWhile_cons, List.takeWhile_cons, ih]
    · have other : test c = false := by
        by_contra passes
        exact low (ascii c (by simpa using passes))
      obtain ⟨b, more, first⟩ := exists_first_byte c
      have above : 128 ≤ b.toNat := bytes_high (Nat.le_of_not_lt low) (first ▸ List.mem_cons_self)
      rw [List.takeWhile_cons_of_neg (by simp [other]), bytes_cons, first, List.cons_append,
        List.takeWhile_cons_of_neg]
      intro passes
      exact absurd (ascii b passes) (Nat.not_lt.mpr above)

/-- A line feed is found among the bytes where the line ends. -/
theorem findIdx?_bytes (text : List Char) :
    (bytes text).findIdx? (· == '\n') =
      if '\n' ∈ text then some (byteLength (text.takeWhile (· != '\n'))) else none := by
  induction text with
  | nil => rfl
  | cons c text ih =>
    by_cases feed : c = '\n'
    · subst feed
      simp [bytes_ascii, List.findIdx?_cons]
    · have none : (bytes [c]).findIdx? (· == '\n') = none := by
        rw [List.findIdx?_eq_none_iff]
        intro b member
        rw [beq_eq_false_iff_ne]
        rintro rfl
        by_cases low : c.toNat < 128
        · rw [bytes_ascii low] at member
          exact feed (List.mem_singleton.mp member).symm
        · exact absurd (bytes_high (Nat.le_of_not_lt low) member) (by decide)
      have taken : (c :: text).takeWhile (· != '\n') = c :: text.takeWhile (· != '\n') :=
        List.takeWhile_cons_of_pos (by simpa using feed)
      rw [bytes_cons, List.findIdx?_append, none, ih, taken]
      by_cases later : '\n' ∈ text
      · have length : byteLength [c] = c.utf8Size := byteLength_cons c []
        simp [later, byteLength_cons, Nat.add_comm]
      · simp [later, Ne.symm feed]

variable {front rest : List Char}

theorem getElem?_bytes (front rest : List Char) (k : Nat) :
    (bytes (front ++ rest))[byteLength front + k]? = (bytes rest)[k]? := by
  rw [bytes_append, ← length_bytes, List.getElem?_append_right (Nat.le_add_right _ _),
    Nat.add_sub_cancel_left]

theorem drop_bytes (front rest : List Char) :
    (bytes (front ++ rest)).drop (byteLength front) = bytes rest := by
  rw [bytes_append, ← length_bytes, List.drop_left]

theorem splitAt?_signs {d : Char} (first : c.toNat < 128) (second : d.toNat < 128)
    (front rest : List Char) :
    splitAt? (byteLength front + 2) (front ++ c :: d :: rest) = some (front ++ [c, d], rest) :=
  splitAt?_eq_some_iff.mpr ⟨by simp, by simp [byteLength_ascii, first, second]⟩

end Text.Utf8

open Text.Utf8

namespace Hcl.ByteScan

variable {c : Char} {front rest : List Char}

theorem byteAt_append (front rest : List Char) (k : Nat) :
    byteAt (front ++ rest) (byteLength front + k) = byteAt rest k := by
  rw [byteAt, getElem?_bytes, byteAt]

theorem byteAt_succ (ascii : c.toNat < 128) (rest : List Char) (k : Nat) :
    byteAt (c :: rest) (k + 1) = byteAt rest k := by
  rw [byteAt, bytes_ascii ascii, List.getElem?_cons_succ, byteAt]

theorem byteAt_zero (ascii : c.toNat < 128) (rest : List Char) : byteAt (c :: rest) 0 = c := by
  rw [byteAt, bytes_ascii ascii]
  rfl

theorem byteAt_zero_high (high : 128 ≤ c.toNat) (rest : List Char) :
    128 ≤ (byteAt (c :: rest) 0).toNat := by
  obtain ⟨b, more, first⟩ := exists_first_byte c
  have above : 128 ≤ b.toNat := bytes_high high (first ▸ List.mem_cons_self)
  rwa [byteAt, bytes_cons, first]

theorem test_byteAt (test : Char → Bool) (ascii : ∀ c, test c = true → c.toNat < 128)
    (other : test '\x00' = false) (rest : List Char) :
    test (byteAt rest 0) = rest.head?.any test := by
  cases rest with
  | nil => exact other
  | cons c rest =>
    rw [List.head?_cons, Option.any_some]
    by_cases low : c.toNat < 128
    · rw [byteAt_zero low]
    · have above := byteAt_zero_high (Nat.le_of_not_lt low) rest
      rw [Bool.eq_iff_iff]
      constructor
      · intro passes
        exact absurd (ascii _ passes) (Nat.not_lt.mpr above)
      · intro passes
        exact absurd (ascii _ passes) low

theorem byteAt_eq_iff (sign : 0 < c.toNat ∧ c.toNat < 128) :
    byteAt rest 0 = c ↔ ∃ more, rest = c :: more := by
  have visible : '\x00' ≠ c := by
    rintro rfl
    cases sign.1
  have told := test_byteAt (· == c) (fun d same => by rw [beq_iff_eq.mp same]; exact sign.2)
    (beq_eq_false_iff_ne.mpr visible) rest
  rw [← beq_iff_eq, told, ← List.head?_eq_some_iff, Option.any_eq_true]
  simp

end Hcl.ByteScan

end TerraDoc
