import TerraDoc.Proofs.CommaList
import TerraDoc.Proofs.NumberText
import TerraDoc.Text.Letter
import TerraDoc.Value.Basic

/-!
Away from strings the canonical text of a value determines the value. Only a string can hold the
signs that end a text inside another one, so what follows a text tells where it ends.
-/

namespace TerraDoc.Value

/-- Letters, digits, the underscore and the dash. -/
def isWordChar (c : Char) : Bool :=
  Text.isAlphanumeric c || c == '_' || c == '-'

/-- Values without strings, whose keys are words at every depth. -/
inductive Stringless : Value → Prop where
  | num (n : Number) : Stringless (.num n)
  | bool (b : Bool) : Stringless (.bool b)
  | seq {items : List Value} (each : ∀ item ∈ items, Stringless item) : Stringless (.seq items)
  | map {entries : List (String × Value)}
      (words : ∀ entry ∈ entries, ∀ c ∈ entry.1.toList, isWordChar c = true)
      (each : ∀ entry ∈ entries, Stringless entry.2) : Stringless (.map entries)

/-- The signs that end the text of a part. -/
def isDelimiter (c : Char) : Bool :=
  c == ',' || c == ']' || c == '}'

/-- What can follow the text of a part: a delimiter, or nothing. -/
def Delimited (text : List Char) : Prop :=
  ∀ c ∈ text.head?, isDelimiter c = true

theorem Delimited.cons {c : Char} (delimiter : isDelimiter c = true) (text : List Char) :
    Delimited (c :: text) := by
  rintro _ ⟨⟩
  exact delimiter

/-- Two parts that are the same if their texts are, up to what follows them. -/
def ReadApart {α : Type} (written : α → List Char) (x y : α) : Prop :=
  ∀ after after', Delimited after → Delimited after' →
    written x ++ after = written y ++ after' → x = y ∧ after = after'

theorem append_inj_of_stop (stops : Char → Bool) {text text' after after' : List Char}
    (plain : ∀ c ∈ text, stops c = false) (plain' : ∀ c ∈ text', stops c = false)
    (ends : ∀ c ∈ after.head?, stops c = true) (ends' : ∀ c ∈ after'.head?, stops c = true)
    (same : text ++ after = text' ++ after') : text = text' ∧ after = after' := by
  have front {text after : List Char} (plain : ∀ c ∈ text, stops c = false)
      (ends : ∀ c ∈ after.head?, stops c = true) :
      (text ++ after).takeWhile (!stops ·) = text := by
    rw [List.takeWhile_append_of_pos fun c member => by rw [plain c member]; rfl]
    cases after with
    | nil => simp
    | cons c rest => simp [ends c rfl]
  have whole : text = text' := by rw [← front plain ends, same, front plain' ends']
  subst whole
  exact ⟨rfl, List.append_cancel_left same⟩

theorem number_plain {n : Number} {c : Char} (inside : c ∈ n.text) : isDelimiter c = false := by
  rcases Number.mem_text inside with digit | rfl | rfl
  · exact digit_cases (fun c => isDelimiter c = false) (by decide) digit
  · rfl
  · rfl

theorem num_readApart (n m : Number) : ReadApart canonicalText (.num n) (.num m) := by
  intro after after' ends ends' same
  rw [canonicalText, canonicalText] at same
  obtain ⟨text, rest⟩ :=
    append_inj_of_stop isDelimiter (fun _ => number_plain) (fun _ => number_plain) ends ends' same
  exact ⟨congrArg num (Number.text_injective text), rest⟩

theorem bool_readApart (a b : Bool) : ReadApart canonicalText (.bool a) (.bool b) := by
  intro after after' _ _ same
  cases a <;> cases b <;> simp_all [canonicalText]

/-- The text of a part begins with a sign that ends none. -/
def Opens (text : List Char) : Prop :=
  ∃ c rest, text = c :: rest ∧ isDelimiter c = false

section Lists

variable {α : Type} {gap : List Char} {written : α → List Char} {close : Char}

theorem Opens.append_ne {text : List Char} (opens : Opens text) (closing : isDelimiter close = true)
    (rest after : List Char) : text ++ rest ≠ close :: after := by
  obtain ⟨c, more, rfl, plain⟩ := opens
  intro same
  rw [(List.cons.inj same).1, closing] at plain
  cases plain

theorem moreText_delimited (closing : isDelimiter close = true) (items : List α)
    (after : List Char) : Delimited (Hcl.moreText gap written items ++ close :: after) := by
  cases items with
  | nil => exact .cons closing after
  | cons item rest => exact .cons (by decide) _

/-- The items after the first are the same if their texts are, up to what follows the closing
sign. -/
theorem moreText_inj (closing : isDelimiter close = true) (other : close ≠ ',') {xs ys : List α}
    {after after' : List Char} (each : ∀ x ∈ xs, ∀ y ∈ ys, ReadApart written x y)
    (same : Hcl.moreText gap written xs ++ close :: after =
      Hcl.moreText gap written ys ++ close :: after') : xs = ys ∧ after = after' := by
  induction xs generalizing ys with
  | nil =>
    cases ys with
    | nil => exact ⟨rfl, (List.cons.inj same).2⟩
    | cons y ys => exact absurd (List.cons.inj same).1 other
  | cons x xs ih =>
    cases ys with
    | nil => exact absurd (List.cons.inj same).1.symm other
    | cons y ys =>
      simp only [Hcl.moreText, List.cons_append, List.append_assoc, List.cons.injEq, true_and,
        List.append_cancel_left_eq] at same
      obtain ⟨rfl, others⟩ := each x List.mem_cons_self y List.mem_cons_self _ _
        (moreText_delimited closing xs after) (moreText_delimited closing ys after') same
      have later (x : α) (member : x ∈ xs) (y : α) (member' : y ∈ ys) : ReadApart written x y :=
        each x (List.mem_cons_of_mem _ member) y (List.mem_cons_of_mem _ member')
      obtain ⟨rfl, rest⟩ := ih later others
      exact ⟨rfl, rest⟩

/-- Lists are the same if their texts are, up to what follows the closing sign. -/
theorem listText_inj (closing : isDelimiter close = true) (other : close ≠ ',') {xs ys : List α}
    {after after' : List Char} (opens : ∀ x ∈ xs, Opens (written x))
    (opens' : ∀ y ∈ ys, Opens (written y)) (each : ∀ x ∈ xs, ∀ y ∈ ys, ReadApart written x y)
    (same : Hcl.listText gap written xs ++ close :: after =
      Hcl.listText gap written ys ++ close :: after') : xs = ys ∧ after = after' := by
  cases xs with
  | nil =>
    cases ys with
    | nil => exact ⟨rfl, (List.cons.inj same).2⟩
    | cons y ys =>
      rw [Hcl.listText, Hcl.listText, List.append_assoc] at same
      exact absurd same.symm ((opens' y List.mem_cons_self).append_ne closing _ _)
  | cons x xs =>
    cases ys with
    | nil =>
      rw [Hcl.listText, Hcl.listText, List.append_assoc] at same
      exact absurd same ((opens x List.mem_cons_self).append_ne closing _ _)
    | cons y ys =>
      have whole : Hcl.moreText gap written (x :: xs) ++ close :: after =
          Hcl.moreText gap written (y :: ys) ++ close :: after' := by
        rw [Hcl.listText, Hcl.listText] at same
        simp only [Hcl.moreText, List.cons_append, List.append_assoc] at same ⊢
        rw [same]
      exact moreText_inj closing other each whole

end Lists

theorem canonicalEntry_readApart {entry entry' : String × Value}
    (word : ∀ c ∈ entry.1.toList, isWordChar c = true)
    (word' : ∀ c ∈ entry'.1.toList, isWordChar c = true)
    (value : ReadApart canonicalText entry.2 entry'.2) :
    ReadApart canonicalEntry entry entry' := by
  have plain {c : Char} (letter : isWordChar c = true) : (c == '=') = false := by
    rw [beq_eq_false_iff_ne]
    rintro rfl
    exact absurd letter (by decide)
  intro after after' ends ends' same
  simp only [canonicalEntry, List.append_assoc, List.cons_append] at same
  obtain ⟨key, others⟩ := append_inj_of_stop (· == '=')
    (fun c member => plain (word c member)) (fun c member => plain (word' c member))
    (by simp) (by simp) same
  obtain ⟨text, rest⟩ := value after after' ends ends' (List.cons.inj others).2
  exact ⟨Prod.ext (String.toList_injective key) text, rest⟩

theorem canonicalEntry_opens {entry : String × Value}
    (word : ∀ c ∈ entry.1.toList, isWordChar c = true) : Opens (canonicalEntry entry) := by
  unfold canonicalEntry
  cases key : entry.1.toList with
  | nil => exact ⟨'=', _, rfl, rfl⟩
  | cons c rest =>
    refine ⟨c, _, rfl, ?_⟩
    have letter := word c (key ▸ List.mem_cons_self)
    by_contra delimiter
    simp only [isDelimiter, Bool.not_eq_false, Bool.or_eq_true, beq_iff_eq] at delimiter
    rcases delimiter with (rfl | rfl) | rfl <;> exact absurd letter (by decide)

/-- The kind of the values whose texts begin with a character. -/
def openingKind : Char → String
  | '[' => "sequence"
  | '{' => "map"
  | 't' | 'f' => "bool"
  | _ => "number"

theorem Stringless.head {value : Value} (plain : value.Stringless) :
    ∃ c rest, value.canonicalText = c :: rest ∧ isDelimiter c = false ∧
      openingKind c = value.kind := by
  cases plain with
  | num n =>
    obtain ⟨c, rest, text, digit | rfl⟩ := n.text_cons
    · refine ⟨c, rest, text, number_plain (text ▸ List.mem_cons_self), ?_⟩
      exact digit_cases (fun c => openingKind c = "number") (by decide) digit
    · exact ⟨'-', rest, text, rfl, rfl⟩
  | bool b => cases b <;> exact ⟨_, _, rfl, rfl, rfl⟩
  | seq => exact ⟨_, _, canonicalText_seq _, rfl, rfl⟩
  | map => exact ⟨_, _, canonicalText_map _, rfl, rfl⟩

theorem Stringless.opens {value : Value} (plain : value.Stringless) :
    Opens value.canonicalText := by
  obtain ⟨c, rest, text, delimiter, -⟩ := plain.head
  exact ⟨c, rest, text, delimiter⟩

theorem Stringless.kind_eq {v w : Value} (plain : v.Stringless) (plain' : w.Stringless)
    {after after' : List Char} (same : v.canonicalText ++ after = w.canonicalText ++ after') :
    v.kind = w.kind := by
  obtain ⟨c, rest, text, -, kind⟩ := plain.head
  obtain ⟨c', rest', text', -, kind'⟩ := plain'.head
  rw [text, text'] at same
  rw [← kind, ← kind', (List.cons.inj same).1]

/-- The texts of values tell the values apart, whatever follows them. -/
theorem Stringless.readApart {v w : Value} (plain : v.Stringless) (plain' : w.Stringless) :
    ReadApart canonicalText v w := by
  induction plain generalizing w with
  | num n =>
    intro after after' ends ends' same
    have kinds := (Stringless.num n).kind_eq plain' same
    cases plain' with
    | num m => exact num_readApart n m after after' ends ends' same
    | bool | seq | map => simp [kind] at kinds
  | bool b =>
    intro after after' ends ends' same
    have kinds := (Stringless.bool b).kind_eq plain' same
    cases plain' with
    | bool b' => exact bool_readApart b b' after after' ends ends' same
    | num | seq | map => simp [kind] at kinds
  | seq each ih =>
    intro after after' _ _ same
    have kinds := (Stringless.seq each).kind_eq plain' same
    cases plain' with
    | num | bool | map => simp [kind] at kinds
    | seq each' =>
      rw [canonicalText_seq, canonicalText_seq, ← Hcl.listText_eq_intercalate,
        ← Hcl.listText_eq_intercalate] at same
      simp only [List.cons_append, List.append_assoc, List.nil_append, List.cons.injEq,
        true_and] at same
      obtain ⟨rfl, rest⟩ := listText_inj (by decide) (by decide)
        (fun item member => (each item member).opens)
        (fun item member => (each' item member).opens)
        (fun item member item' member' => ih item member (each' item' member')) same
      exact ⟨rfl, rest⟩
  | map words each ih =>
    intro after after' _ _ same
    have kinds := (Stringless.map words each).kind_eq plain' same
    cases plain' with
    | num | bool | seq => simp [kind] at kinds
    | map words' each' =>
      rw [canonicalText_map, canonicalText_map, ← Hcl.listText_eq_intercalate,
        ← Hcl.listText_eq_intercalate] at same
      simp only [List.cons_append, List.append_assoc, List.nil_append, List.cons.injEq,
        true_and] at same
      obtain ⟨rfl, rest⟩ := listText_inj (by decide) (by decide)
        (fun entry member => canonicalEntry_opens (words entry member))
        (fun entry member => canonicalEntry_opens (words' entry member))
        (fun entry member entry' member' => canonicalEntry_readApart (words entry member)
          (words' entry' member') (ih entry member (each' entry' member'))) same
      exact ⟨rfl, rest⟩

/-- Away from strings the canonical text of a value determines the value. -/
theorem canonical_determines_value {v w : Value} (plain : v.Stringless) (plain' : w.Stringless)
    (same : v.canonical = w.canonical) : v = w := by
  have texts : v.canonicalText = w.canonicalText := String.ofList_injective same
  have nothing : Delimited [] := fun _ head => by simp at head
  refine (plain.readApart plain' [] [] nothing nothing ?_).1
  rw [texts]

theorem canonical_determines_value_nested :
    let built := Value.seq [.num (Number.ofScaled false 10 (-2)).negate,
      .map (Dictionary.ofList [("b-1", .bool true), ("a_2", .seq [])])]
    let given := Value.seq [.num (Number.ofScaled true 1 (-1)),
      .map [("a_2", .seq []), ("b-1", .bool true)]]
    built.Stringless ∧ given.Stringless ∧ built.canonical = given.canonical ∧ built = given := by
  have plain (n : Number) :
      (Value.seq [.num n, .map [("a_2", .seq []), ("b-1", .bool true)]]).Stringless := by
    have entries : (Value.map [("a_2", .seq []), ("b-1", .bool true)]).Stringless := by
      refine .map ?_ ?_
      · simp only [List.forall_mem_cons]
        exact ⟨List.all_eq_true.mp (by decide), List.all_eq_true.mp (by decide), by simp⟩
      · rintro _ (_ | ⟨_, _ | ⟨_, ⟨⟩⟩⟩)
        · exact .seq fun _ none => nomatch none
        · exact .bool true
    refine .seq ?_
    rintro _ (_ | ⟨_, _ | ⟨_, ⟨⟩⟩⟩)
    · exact .num n
    · exact entries
  have same : (Value.seq [.num (Number.ofScaled false 10 (-2)).negate,
        .map (Dictionary.ofList [("b-1", .bool true), ("a_2", .seq [])])]).canonical =
      (Value.seq [.num (Number.ofScaled true 1 (-1)),
        .map [("a_2", .seq []), ("b-1", .bool true)]]).canonical := by
    decide +kernel
  exact ⟨plain _, plain _, same, canonical_determines_value (plain _) (plain _) same⟩

/-- A string can print as another value does. -/
example : (Value.seq [.str "1, true"]).canonical =
    (Value.seq [.num (.ofNat 1), .bool true]).canonical := by
  decide +kernel

end TerraDoc.Value
