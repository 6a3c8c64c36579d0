import Mathlib.Algebra.Group.Nat.Defs
import TerraDoc.Text.Utf8

namespace TerraDoc.Text.Utf8

/-- The bytes of a character after its first: six bits of its code in each. -/
def tailBytes : Nat → Nat → List UInt8
  | 0, _ => []
  | count + 1, code => UInt8.ofNat (code / 64 ^ count % 64 + 0x80) :: tailBytes count code

/-- A lead byte for a code that so many bytes follow. -/
def LeadByte (count code lead : Nat) : Prop :=
  (count = 0 ∧ lead = code ∧ code < 0x80) ∨
    (count = 1 ∧ lead = code / 64 ^ 1 + 0xc0 ∧ 0x80 ≤ code ∧ code < 0x800) ∨
    (count = 2 ∧ lead = code / 64 ^ 2 + 0xe0 ∧ 0x800 ≤ code ∧ code < 0x10000) ∨
    (count = 3 ∧ lead = code / 64 ^ 3 + 0xf0 ∧ 0x10000 ≤ code ∧ code < 0x110000)

theorem utf8EncodeChar_eq (c : Char) :
    ∃ count lead, LeadByte count c.val.toNat lead ∧
      String.utf8EncodeChar c = UInt8.ofNat lead :: tailBytes count c.val.toNat := by
  have bound : c.val.toNat < 0x110000 := by
    have valid := c.valid
    simp only [UInt32.isValidChar, Nat.isValidChar] at valid
    omega
  unfold String.utf8EncodeChar
  generalize c.val.toNat = v at bound
  dsimp only
  by_cases one : v ≤ 0x7f
  · exact ⟨0, v, .inl ⟨rfl, rfl, by omega⟩, if_pos one⟩
  by_cases two : v ≤ 0x7ff
  · refine ⟨1, v / 64 ^ 1 + 0xc0, .inr (.inl ⟨rfl, rfl, by omega, by omega⟩), ?_⟩
    have lead : v / 64 % 32 = v / 64 := by omega
    simp [one, two, tailBytes, lead]
  by_cases three : v ≤ 0xffff
  · refine ⟨2, v / 64 ^ 2 + 0xe0, .inr (.inr (.inl ⟨rfl, rfl, by omega, by omega⟩)), ?_⟩
    have lead : v / 4096 % 16 = v / 4096 := by omega
    simp [one, two, three, tailBytes, lead]
  · refine ⟨3, v / 64 ^ 3 + 0xf0, .inr (.inr (.inr ⟨rfl, rfl, by omega, bound⟩)), ?_⟩
    have lead : v / 262144 % 8 = v / 262144 := by omega
    simp [one, two, three, tailBytes, lead]

theorem tailBytes_high {count code : Nat} {b : UInt8}
    (member : b ∈ tailBytes count code) : 0x80 ≤ b.toNat := by
  induction count with
  | zero => cases member
  | succ count inductionHypothesis =>
    rcases List.mem_cons.mp member with rfl | later
    · rw [UInt8.toNat_ofNat_of_lt' (by show _ < 256; omega)]
      omega
    · exact inductionHypothesis later

theorem mem_utf8EncodeChar {c : Char} {b : UInt8} (member : b ∈ String.utf8EncodeChar c) :
    b.toNat = c.toNat ∨ 0x80 ≤ b.toNat := by
  obtain ⟨count, lead, first, bytes⟩ := utf8EncodeChar_eq c
  rw [bytes] at member
  rcases List.mem_cons.mp member with rfl | later
  · have bound : lead < 256 := by
      rcases first with ⟨-, rfl, _⟩ | ⟨-, rfl, _⟩ | ⟨-, rfl, _⟩ | ⟨-, rfl, _⟩ <;> omega
    rw [UInt8.toNat_ofNat_of_lt' bound]
    rcases first with ⟨-, same, _⟩ | ⟨-, rfl, _⟩ | ⟨-, rfl, _⟩ | ⟨-, rfl, _⟩
    · exact .inl same
    all_goals exact .inr (by omega)
  · exact .inr (tailBytes_high later)

theorem ofNat_lt {first second : Nat} (smaller : first < second) (bound : second < 256) :
    UInt8.ofNat first < UInt8.ofNat second := by
  rw [UInt8.lt_iff_toNat_lt, UInt8.toNat_ofNat_of_lt' (Nat.lt_trans smaller bound),
    UInt8.toNat_ofNat_of_lt' bound]
  exact smaller

theorem tailBytes_lt {count code code' : Nat} (smaller : code < code')
    (same : code / 64 ^ count = code' / 64 ^ count) (rest rest' : List UInt8) :
    tailBytes count code ++ rest < tailBytes count code' ++ rest' := by
  induction count with
  | zero =>
    rw [Nat.pow_zero, Nat.div_one, Nat.div_one] at same
    exact absurd same (Nat.ne_of_lt smaller)
  | succ count inductionHypothesis =>
    rw [tailBytes, tailBytes, List.cons_append, List.cons_append, List.cons_lt_cons_iff]
    rw [Nat.pow_succ, ← Nat.div_div_eq_div_mul, ← Nat.div_div_eq_div_mul] at same
    rcases Nat.lt_or_eq_of_le (Nat.div_le_div_right (c := 64 ^ count) (Nat.le_of_lt smaller)) with
      before | equal
    · left
      exact ofNat_lt (by omega) (by omega)
    · right
      rw [equal]
      exact ⟨rfl, inductionHypothesis equal⟩

theorem utf8EncodeChar_lt {c d : Char} (smaller : c < d) (rest rest' : List UInt8) :
    String.utf8EncodeChar c ++ rest < String.utf8EncodeChar d ++ rest' := by
  have codes : c.val.toNat < d.val.toNat := smaller
  obtain ⟨count, lead, first, same⟩ := utf8EncodeChar_eq c
  obtain ⟨count', lead', first', same'⟩ := utf8EncodeChar_eq d
  rw [same, same', List.cons_append, List.cons_append, List.cons_lt_cons_iff]
  have order : lead < lead' ∧ lead' < 256 ∨
      lead = lead' ∧ count = count' ∧ c.val.toNat / 64 ^ count = d.val.toNat / 64 ^ count := by
    rcases first with ⟨rfl, rfl, _⟩ | ⟨rfl, rfl, _⟩ | ⟨rfl, rfl, _⟩ | ⟨rfl, rfl, _⟩ <;>
      rcases first' with ⟨rfl, rfl, _⟩ | ⟨rfl, rfl, _⟩ | ⟨rfl, rfl, _⟩ | ⟨rfl, rfl, _⟩ <;> omega
  rcases order with ⟨before, bound⟩ | ⟨rfl, rfl, equal⟩
  · left
    exact ofNat_lt before bound
  · right
    exact ⟨rfl, tailBytes_lt codes equal rest rest'⟩

theorem encode_lt {first second : List Char} (smaller : first < second) :
    encode first < encode second := by
  induction first generalizing second with
  | nil =>
    cases second with
    | nil => exact absurd smaller (List.lt_irrefl [])
    | cons d second =>
      obtain ⟨count, lead, -, same⟩ := utf8EncodeChar_eq d
      rw [encode, encode, List.flatMap_cons, same]
      exact List.nil_lt_cons _ _
  | cons c first inductionHypothesis =>
    cases second with
    | nil => exact absurd smaller (List.not_lt_nil _)
    | cons d second =>
      rw [encode, encode, List.flatMap_cons, List.flatMap_cons]
      rcases List.cons_lt_cons_iff.mp smaller with before | ⟨rfl, later⟩
      · exact utf8EncodeChar_lt before _ _
      · exact List.append_left_lt (inductionHypothesis later)

theorem encode_lt_iff (first second : String) :
    encode first.toList < encode second.toList ↔ first < second := by
  constructor
  · intro bytes
    by_cases smaller : first < second
    · exact smaller
    by_cases greater : second < first
    · exact absurd (encode_lt greater) (List.lt_asymm bytes)
    · rw [String.le_antisymm greater smaller] at bytes
      exact absurd bytes (List.lt_irrefl _)
  · exact encode_lt

/-- A lead byte owes the bytes after it, and says in which range the first of them lies. -/
theorem first_leadByte {count lead : Nat} {c : Char}
    (leads : LeadByte (count + 1) c.val.toNat lead) :
    ∃ low high, first lead = .pending ⟨count + 1, low, high, c.val.toNat / 64 ^ (count + 1)⟩ ∧
      low ≤ c.val.toNat / 64 ^ count % 64 + 0x80 ∧
      c.val.toNat / 64 ^ count % 64 + 0x80 ≤ high := by
  have valid := c.valid
  simp only [UInt32.isValidChar, Nat.isValidChar] at valid
  generalize c.val.toNat = code at leads valid
  simp only [first, Bool.and_eq_true, decide_eq_true_eq]
  rcases leads with ⟨none, -⟩ | ⟨one, rfl, range⟩ | ⟨two, rfl, range⟩ | ⟨three, rfl, range⟩
  · cases none
  · cases one
    refine ⟨0x80, 0xBF, ?_, by omega, by omega⟩
    rw [if_neg (by omega), if_pos (by omega), Nat.add_sub_cancel]
  · cases two
    rw [if_neg (by omega), if_neg (by omega)]
    by_cases least : code / 64 ^ 2 = 0
    · exact ⟨0xA0, 0xBF, by rw [if_pos (by omega), least], by omega, by omega⟩
    rw [if_neg (by omega)]
    by_cases surrogate : code / 64 ^ 2 = 0xD
    · exact ⟨0x80, 0x9F, by rw [if_pos (by omega), surrogate], by omega, by omega⟩
    · refine ⟨0x80, 0xBF, ?_, by omega, by omega⟩
      rw [if_neg (by omega), if_pos (by omega), Nat.add_sub_cancel]
  · cases three
    rw [if_neg (by omega), if_neg (by omega), if_neg (by omega), if_neg (by omega),
      if_neg (by omega)]
    by_cases least : code / 64 ^ 3 = 0
    · exact ⟨0x90, 0xBF, by rw [if_pos (by omega), least], by omega, by omega⟩
    rw [if_neg (by omega)]
    by_cases greatest : code / 64 ^ 3 = 4
    · exact ⟨0x80, 0x8F, by rw [if_neg (by omega), if_pos (by omega), greatest], by omega, by omega⟩
    · refine ⟨0x80, 0xBF, ?_, by omega, by omega⟩
      rw [if_pos (by omega), Nat.add_sub_cancel]

theorem toNat_tailByte (code count : Nat) :
    (UInt8.ofNat (code / 64 ^ count % 64 + 0x80)).toNat = code / 64 ^ count % 64 + 0x80 :=
  UInt8.toNat_ofNat_of_lt' (show code / 64 ^ count % 64 + 0x80 < 256 by omega)

/-- The bytes after a lead byte complete its character. -/
theorem decodeFrom_tailBytes {count low high : Nat} (c : Char) (rest : List UInt8)
    (above : low ≤ c.val.toNat / 64 ^ count % 64 + 0x80)
    (below : c.val.toNat / 64 ^ count % 64 + 0x80 ≤ high) :
    decodeFrom (some ⟨count + 1, low, high, c.val.toNat / 64 ^ (count + 1)⟩)
      (tailBytes (count + 1) c.val.toNat ++ rest) = some c :: decodeFrom none rest := by
  induction count generalizing low high with
  | zero =>
    have whole : c.val.toNat / 64 ^ 1 * 64 + c.val.toNat % 64 = c.val.toNat := by omega
    have read : next ⟨1, low, high, c.val.toNat / 64 ^ 1⟩ (c.val.toNat / 64 ^ 0 % 64 + 0x80) =
        .complete c := by
      rw [next, decide_eq_true above, decide_eq_true below]
      simp only [Bool.and_self, if_true, Nat.le_refl, Nat.add_sub_cancel, Nat.pow_zero,
        Nat.div_one, whole]
      exact congrArg Step.complete (Char.ofNat_toNat c)
    rw [tailBytes, List.cons_append, decodeFrom, toNat_tailByte, read]
    rfl
  | succ count inductionHypothesis =>
    have whole : c.val.toNat / 64 ^ (count + 2) * 64 + c.val.toNat / 64 ^ (count + 1) % 64 =
        c.val.toNat / 64 ^ (count + 1) := by
      rw [Nat.pow_succ 64 (count + 1), ← Nat.div_div_eq_div_mul]
      omega
    have read : next ⟨count + 2, low, high, c.val.toNat / 64 ^ (count + 2)⟩
        (c.val.toNat / 64 ^ (count + 1) % 64 + 0x80) =
          .pending ⟨count + 1, 0x80, 0xBF, c.val.toNat / 64 ^ (count + 1)⟩ := by
      rw [next, decide_eq_true above, decide_eq_true below]
      simp only [Bool.and_self, if_true, Nat.add_sub_cancel, whole]
      exact if_neg (by omega)
    rw [tailBytes, List.cons_append, decodeFrom, toNat_tailByte, read]
    exact inductionHypothesis (by omega) (by omega)

theorem decodeFrom_utf8EncodeChar (c : Char) (rest : List UInt8) :
    decodeFrom none (String.utf8EncodeChar c ++ rest) = some c :: decodeFrom none rest := by
  obtain ⟨count, lead, leads, same⟩ := utf8EncodeChar_eq c
  have bound : lead < 256 := by
    rcases leads with ⟨-, rfl, _⟩ | ⟨-, rfl, _⟩ | ⟨-, rfl, _⟩ | ⟨-, rfl, _⟩ <;> omega
  rw [same, List.cons_append, decodeFrom, UInt8.toNat_ofNat_of_lt' bound]
  cases count with
  | zero =>
    obtain ⟨-, rfl, short⟩ : 0 = 0 ∧ lead = c.val.toNat ∧ c.val.toNat < 0x80 := by
      rcases leads with here | ⟨none, -⟩ | ⟨none, -⟩ | ⟨none, -⟩
      · exact here
      all_goals cases none
    rw [first, if_pos short]
    exact congrArg (fun c => some c :: decodeFrom none rest) (Char.ofNat_toNat c)
  | succ count =>
    obtain ⟨low, high, read, above, below⟩ := first_leadByte leads
    rw [read]
    exact decodeFrom_tailBytes c rest above below

theorem decode_encode (text : List Char) : decode (encode text) = text.map some := by
  induction text with
  | nil => rfl
  | cons c text inductionHypothesis =>
    rw [encode, List.flatMap_cons, decode, decodeFrom_utf8EncodeChar]
    exact congrArg (some c :: ·) inductionHypothesis

theorem decodeLossy_encode (text : List Char) : decodeLossy (encode text) = text := by
  rw [decodeLossy, decode_encode, List.map_map]
  exact List.map_id text

end TerraDoc.Text.Utf8
