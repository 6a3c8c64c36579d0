namespace TerraDoc.Text

def isBlank (c : Char) : Bool :=
  c == ' ' || ('\t' ≤ c && c ≤ '\r') || c == '\x85' || c == '\xa0' || c == '\u1680' ||
    ('\u2000' ≤ c && c ≤ '\u200a') || c == '\u2028' || c == '\u2029' || c == '\u202f' ||
    c == '\u205f' || c == '\u3000'

/-- Drop the longest tail whose characters all satisfy `drop`. -/
def trimEndWhile (drop : Char → Bool) (text : List Char) : List Char :=
  (text.reverse.dropWhile drop).reverse

def trimWhile (drop : Char → Bool) (text : List Char) : List Char :=
  trimEndWhile drop (text.dropWhile drop)

def trimEnd (text : List Char) : List Char :=
  trimEndWhile isBlank text

def trim (text : List Char) : List Char :=
  trimWhile isBlank text

theorem trimWhile_around (drop : Char → Bool) (front text back : List Char) (nonempty : text ≠ [])
    (before : ∀ c ∈ front, drop c = true) (after : ∀ c ∈ back, drop c = true)
    (first : ∀ c ∈ text.head?, drop c = false) (last : ∀ c ∈ text.getLast?, drop c = false) :
    trimWhile drop (front ++ (text ++ back)) = text := by
  have start : (text ++ back).dropWhile drop = text ++ back := by
    cases text with
    | nil => exact absurd rfl nonempty
    | cons c text => simp [first c rfl]
  have finish : text.reverse.dropWhile drop = text.reverse := by
    cases reversed : text.reverse with
    | nil => rfl
    | cons c rest =>
      have here : drop c = false := last c (by
        rw [← List.head?_reverse, reversed]
        rfl)
      simp [here]
  rw [trimWhile, List.dropWhile_append_of_pos before, start, trimEndWhile, List.reverse_append,
    List.dropWhile_append_of_pos (by simpa using after), finish, List.reverse_reverse]

theorem trimWhile_eq_self (drop : Char → Bool) (text : List Char)
    (first : ∀ c ∈ text.head?, drop c = false) (last : ∀ c ∈ text.getLast?, drop c = false) :
    trimWhile drop text = text := by
  cases text with
  | nil => rfl
  | cons c rest =>
    simpa using trimWhile_around drop [] (c :: rest) [] (List.cons_ne_nil c rest) (by simp)
      (by simp) first last

theorem trim_around (front text back : List Char) (nonempty : text ≠ [])
    (before : ∀ c ∈ front, isBlank c = true) (after : ∀ c ∈ back, isBlank c = true)
    (first : ∀ c ∈ text.head?, isBlank c = false)
    (last : ∀ c ∈ text.getLast?, isBlank c = false) : trim (front ++ (text ++ back)) = text :=
  trimWhile_around isBlank front text back nonempty before after first last

theorem trim_eq_self (text : List Char) (first : ∀ c ∈ text.head?, isBlank c = false)
    (last : ∀ c ∈ text.getLast?, isBlank c = false) : trim text = text :=
  trimWhile_eq_self isBlank text first last

end TerraDoc.Text
