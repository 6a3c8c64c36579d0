import TerraDoc.Text.Utf8

/-!
Offsets into a text that is held in UTF-8. An offset counts bytes. A text can only be cut where an
offset stands between two of its characters.
-/

namespace TerraDoc.Text.Utf8

/-- The text before and after an offset, if the offset stands between two characters of the text or
at one of its ends. -/
def splitAt? : Nat → List Char → Option (List Char × List Char)
  | 0, text => some ([], text)
  | _ + 1, [] => none
  | offset + 1, c :: rest =>
      if c.utf8Size ≤ offset + 1 then
        (splitAt? (offset + 1 - c.utf8Size) rest).map fun (front, back) => (c :: front, back)
      else none

def slice? (start stop : Nat) (text : List Char) : Option (List Char) := do
  let (front, _) ← splitAt? stop text
  let (_, part) ← splitAt? start front
  return part

def find? (part : List Char) : List Char → Option Nat
  | [] => if part.isEmpty then some 0 else none
  | c :: rest =>
      if part.isPrefixOf (c :: rest) then some 0
      else (find? part rest).map (c.utf8Size + ·)

/-- The bytes of a text, each as the character with its number: an ASCII character stands for its
own byte. -/
def bytes (text : List Char) : List Char :=
  (encode text).map Char.ofUInt8

@[simp] theorem byteLength_nil : byteLength [] = 0 := rfl

theorem byteLength_cons (c : Char) (rest : List Char) :
    byteLength (c :: rest) = c.utf8Size + byteLength rest := by
  simp [byteLength, encode, String.length_utf8EncodeChar]

@[simp] theorem byteLength_append (first second : List Char) :
    byteLength (first ++ second) = byteLength first + byteLength second := by
  simp [byteLength, encode]

@[simp] theorem length_bytes (text : List Char) : (bytes text).length = byteLength text := by
  rw [bytes, List.length_map, byteLength]

theorem splitAt?_append (front back : List Char) :
    splitAt? (byteLength front) (front ++ back) = some (front, back) := by
  induction front with
  | nil => simp [splitAt?]
  | cons c front inductionHypothesis =>
      have size := c.utf8Size_pos
      obtain ⟨offset, total⟩ : ∃ offset, c.utf8Size + byteLength front = offset + 1 :=
        ⟨c.utf8Size + byteLength front - 1, by omega⟩
      have left : offset + 1 - c.utf8Size = byteLength front := by omega
      rw [byteLength_cons, total, List.cons_append, splitAt?, if_pos (by omega), left,
        inductionHypothesis]
      rfl

/-- Where a text can be cut: between any two parts of it. -/
theorem splitAt?_eq_some_iff {offset : Nat} {text front back : List Char} :
    splitAt? offset text = some (front, back) ↔
      text = front ++ back ∧ byteLength front = offset := by
  constructor
  · intro found
    induction text generalizing offset front with
    | nil =>
        cases offset with
        | zero => cases found; exact ⟨rfl, rfl⟩
        | succ offset => cases found
    | cons c rest inductionHypothesis =>
        cases offset with
        | zero => cases found; exact ⟨rfl, rfl⟩
        | succ offset =>
            rw [splitAt?] at found
            split at found
            · rename_i fits
              obtain ⟨⟨front, back⟩, later, same⟩ := Option.map_eq_some_iff.mp found
              cases same
              obtain ⟨split, length⟩ := inductionHypothesis later
              exact ⟨by rw [split]; rfl, by rw [byteLength_cons, length]; omega⟩
            · cases found
  · rintro ⟨rfl, rfl⟩
    exact splitAt?_append front back

theorem slice?_append (front part back : List Char) :
    slice? (byteLength front) (byteLength front + byteLength part) (front ++ (part ++ back)) =
      some part := by
  have whole := splitAt?_append (front ++ part) back
  rw [byteLength_append, List.append_assoc] at whole
  simp [slice?, whole, splitAt?_append]

end TerraDoc.Text.Utf8
