import Mathlib.Data.List.TakeWhile
import TerraDoc.Proofs.ExponentScan

namespace TerraDoc.Hcl.Exponent

/-- A step inside a number, where a point is one that the normaliser looks for. -/
structure Numeral (s : State) (c : Char) (rest : List Char) : Prop where
  point : Point s c rest ↔ c = '.'
  opened : ¬ Unopened s c rest

/-- A scan that ends in the mode it began in. -/
structure ScansNumber (s : State) (literal rest : List Char) (t : State) : Prop where
  scanned : Scans Numeral s literal rest t
  mode : t.mode = s.mode
  around : t.around = s.around

variable {s t u : State} {text rest literal : List Char}

theorem Scans.numeral (scanned : Scans Silent s text rest t) (unpointed : '.' ∉ text) :
    Scans Numeral s text rest t := by
  induction scanned with
  | nil s after => exact .nil s after
  | @cons s t c text after step _ ih =>
    have other : c ≠ '.' := fun same => unpointed (same ▸ List.mem_cons_self)
    refine .cons ⟨?_, step.opened⟩ (ih fun inside => unpointed (List.mem_cons_of_mem c inside))
    exact ⟨fun point => absurd point step.point, fun same => absurd same other⟩

theorem ScansNumber.append {second : List Char} (first : ScansNumber s text (second ++ rest) t)
    (later : ScansNumber t second rest u) : ScansNumber s (text ++ second) rest u :=
  ⟨first.scanned.append later.scanned, later.mode.trans first.mode,
    later.around.trans first.around⟩

theorem digits_unpointed {digits : List Char} (shape : ∀ c ∈ digits, c.isDigit = true) :
    '.' ∉ digits := fun inside => absurd (shape '.' inside) (by decide)

theorem digitsOf?_split {digits : List Char} (found : digitsOf? text = some digits) :
    ∃ rest, text = digits ++ rest ∧ digits ≠ [] ∧ (∀ c ∈ digits, c.isDigit = true) ∧
      digitFollows rest = false := by
  have taken : text.takeWhile Char.isDigit = digits := by
    unfold digitsOf? at found
    split at found
    · cases found
    · exact Option.some.inj found
  refine ⟨text.dropWhile Char.isDigit, ?_, ?_, ?_, ?_⟩
  · rw [← taken, List.takeWhile_append_dropWhile]
  · rintro rfl
    simp [digitsOf?, taken] at found
  · rw [← taken]
    exact fun c member => List.mem_takeWhile_imp member
  · cases left : text.dropWhile Char.isDigit with
    | nil => rfl
    | cons c rest =>
      have stops := List.head?_dropWhile_not Char.isDigit text
      rw [left] at stops
      simpa [digitFollows] using stops

theorem digitsOf?_none (missing : digitsOf? text = none) : digitFollows text = false := by
  cases text with
  | nil => rfl
  | cons c rest =>
    by_contra digit
    rw [Bool.not_eq_false] at digit
    have taken : (c :: rest).takeWhile Char.isDigit = c :: rest.takeWhile Char.isDigit :=
      List.takeWhile_cons_of_pos digit
    simp [digitsOf?, taken] at missing

theorem scansNumber_digits {digits : List Char} (rest : List Char)
    (number : (∃ afterPoint, s.phase = .digits afterPoint) ∨ s.phase = .fraction ∨
      s.phase = .power)
    (shape : ∀ c ∈ digits, c.isDigit = true) :
    ∃ t, ScansNumber s digits rest t ∧ t.phase = s.phase := by
  obtain ⟨previous, scanned⟩ := @scans_digits s digits rest number shape
  exact ⟨_, ⟨scanned.numeral (digits_unpointed shape), rfl, rfl⟩, rfl⟩

theorem fresh_of_not_digit (number : s.phase = .power) (ends : digitFollows rest = false) :
    Fresh s rest := by
  cases rest with
  | nil => exact fresh_nil s
  | cons c rest => exact fresh_power number ends

/-- An exponent: its mark, its sign if it has one, and its digits. -/
structure Power (text mark sign digits rest : List Char) : Prop where
  split : text = mark ++ (sign ++ (digits ++ rest))
  mark : ∃ c, mark = [c] ∧ isMark c = true
  sign : sign = [] ∨ ∃ c, sign = [c] ∧ isSign c = true
  nonempty : digits ≠ []
  digits : ∀ c ∈ digits, c.isDigit = true
  ends : digitFollows rest = false

theorem powerOf_mark {mark : Char} (marks : mark = 'e' ∨ mark = 'E') (after : List Char) :
    ∃ sign text, after = sign ++ text ∧ (sign = [] ∨ ∃ c, sign = [c] ∧ isSign c = true) ∧
      powerOf (mark :: after) = match digitsOf? text with
        | some digits => [mark] ++ (sign ++ digits)
        | none => [] := by
  cases after with
  | nil => exact ⟨[], [], rfl, .inl rfl, by simp [powerOf, marks, digitsOf?]⟩
  | cons c text =>
    by_cases plus : c = '+'
    · subst plus
      refine ⟨['+'], text, rfl, .inr ⟨'+', rfl, rfl⟩, ?_⟩
      cases found : digitsOf? text <;> simp [powerOf, marks, found]
    · by_cases minus : c = '-'
      · subst minus
        refine ⟨['-'], text, rfl, .inr ⟨'-', rfl, rfl⟩, ?_⟩
        cases found : digitsOf? text <;> simp [powerOf, marks, found]
      · refine ⟨[], c :: text, rfl, .inl rfl, ?_⟩
        cases found : digitsOf? (c :: text) <;> simp [powerOf, marks, found, plus, minus]

theorem powerOf_cases (text : List Char) :
    powerOf text = [] ∨ ∃ mark sign digits rest, Power text mark sign digits rest ∧
      powerOf text = mark ++ (sign ++ digits) := by
  cases text with
  | nil => exact .inl rfl
  | cons mark after =>
    by_cases marks : mark = 'e' ∨ mark = 'E'
    · obtain ⟨sign, text, rfl, shape, spelled⟩ := powerOf_mark marks after
      rw [spelled]
      cases found : digitsOf? text with
      | none => exact .inl rfl
      | some digits =>
        obtain ⟨rest, rfl, nonempty, isDigit, ends⟩ := digitsOf?_split found
        refine .inr ⟨[mark], sign, digits, rest, ⟨rfl, ⟨mark, rfl, ?_⟩, shape, nonempty, isDigit,
          ends⟩, rfl⟩
        rcases marks with rfl | rfl <;> rfl
    · exact .inl (by simp [powerOf, marks])

theorem Power.unpointed {mark sign digits : List Char} (power : Power text mark sign digits rest) :
    '.' ∉ mark ++ sign := by
  obtain ⟨c, rfl, isMarked⟩ := power.mark
  intro inside
  rcases List.mem_append.mp inside with first | second
  · rw [← List.mem_singleton.mp first] at isMarked
    exact absurd isMarked (by decide)
  · rcases power.sign with rfl | ⟨d, rfl, isSigned⟩
    · cases second
    · rw [← List.mem_singleton.mp second] at isSigned
      exact absurd isSigned (by decide)

/-- The exponent of a fraction is scanned as one. Without an exponent the fraction ends, unless a
mark follows it. -/
theorem scansNumber_power (text : List Char) (fraction : s.phase = .fraction)
    (ends : digitFollows text = false) :
    ∃ rest t, text = powerOf text ++ rest ∧ ScansNumber s (powerOf text) rest t ∧
      '.' ∉ powerOf text ∧ (((∀ c ∈ powerOf text, isMark c = false) →
        ∀ c ∈ rest.head?, isMark c = false) → Fresh t rest) := by
  rcases powerOf_cases text with absent | ⟨mark, sign, digits, rest, power, spelled⟩
  · refine ⟨text, s, by rw [absent]; rfl, ?_, by simp [absent], fun unmarked => ?_⟩
    · rw [absent]
      exact ⟨.nil s text, rfl, rfl⟩
    · cases text with
      | nil => exact fresh_nil s
      | cons c rest => exact fresh_fraction fraction ends (unmarked (by simp [absent]) c rfl)
  · obtain ⟨c, rfl, isMarked⟩ := power.mark
    have notDigit : c.isDigit = false := by
      by_contra digit
      simp [digit_not_mark (by simpa using digit)] at isMarked
    have here (after : List Char) : phaseStep s c after =
        (s.goOn (if signFollows after then .skip 1 .power else .power), false) := by
      simp [phaseStep, fraction, notDigit, isMarked]
    have other : c ≠ '<' := by rintro rfl; exact absurd isMarked (by decide)
    have opened : ∃ t, Scans Silent s ([c] ++ sign) (digits ++ rest) t ∧ t.mode = s.mode ∧
        t.around = s.around ∧ t.phase = .power := by
      rcases power.sign with rfl | ⟨d, rfl, isSigned⟩
      · have follows : signFollows (digits ++ rest) = false := by
          have nonempty := power.nonempty
          have isDigit := power.digits
          cases digits with
          | nil => exact absurd rfl nonempty
          | cons d digits =>
            have digit := isDigit d List.mem_cons_self
            exact digit_cases (fun d => isSign d = false) (by decide) digit
        have step := here (digits ++ rest)
        rw [follows] at step
        exact ⟨_, scans_step step (by simp [fraction]) (fun same => absurd same other), rfl, rfl,
          rfl⟩
      · have step := here (d :: (digits ++ rest))
        rw [show signFollows (d :: (digits ++ rest)) = true from isSigned] at step
        exact ⟨_, scans_pair .power step rfl other (by simp), rfl, rfl, rfl⟩
    obtain ⟨t, first, mode, around, phase⟩ := opened
    have whole : ScansNumber s ([c] ++ sign) (digits ++ rest) t :=
      ⟨first.numeral power.unpointed, mode, around⟩
    obtain ⟨u, later, same⟩ :=
      scansNumber_digits (s := t) rest (.inr (.inr phase)) power.digits
    rw [spelled, ← List.append_assoc]
    refine ⟨rest, u, ?_, whole.append later, ?_, fun _ => ?_⟩
    · rw [power.split]
      simp
    · rw [List.mem_append, not_or]
      exact ⟨power.unpointed, digits_unpointed power.digits⟩
    · exact fresh_of_not_digit (same.trans phase) power.ends

/-- What ends a number whose text the normaliser does not go on with. -/
structure NumberEnds (literal rest : List Char) : Prop where
  hexadecimal : ['0', 'x'] <+: literal → ¬ ['-'] <+: rest ∧ ¬ [':', ':'] <+: rest
  fraction : '.' ∈ literal → (∀ c ∈ literal, isMark c = false) →
    ∀ c ∈ rest.head?, isMark c = false

theorem fractionOf_cases (text : List Char) :
    (fractionOf text = [] ∧ ∀ rest, text = '.' :: rest → digitFollows rest = false) ∨
      ∃ digits after, text = '.' :: (digits ++ after) ∧
        fractionOf text = ['.'] ++ (digits ++ powerOf after) ∧ digits ≠ [] ∧
        (∀ c ∈ digits, c.isDigit = true) ∧ digitFollows after = false := by
  by_cases point : ∃ rest, text = '.' :: rest
  · obtain ⟨rest, rfl⟩ := point
    cases found : digitsOf? rest with
    | none =>
      refine .inl ⟨by simp [fractionOf, found], fun after same => ?_⟩
      rw [← (List.cons.inj same).2]
      exact digitsOf?_none found
    | some digits =>
      obtain ⟨after, rfl, nonempty, isDigit, ends⟩ := digitsOf?_split found
      exact .inr ⟨digits, after, rfl, by simp [fractionOf, found], nonempty, isDigit, ends⟩
  · refine .inl ⟨?_, fun rest same => absurd ⟨rest, same⟩ point⟩
    unfold fractionOf
    split
    · exact absurd ⟨_, rfl⟩ point
    · rfl

theorem fresh_of_unmarked {c : Char} (digits : s.phase = .digits false)
    (other : c.isDigit = false) (unmarked : Unmarked s c rest)
    (point : c = '.' → digitFollows rest = false) : Fresh s (c :: rest) := by
  apply fresh_digits digits other
  · by_contra bare
    have found : isMark c = true ∧ powerFollows rest = true := by simpa using bare
    have marked : (step s c rest).2 = true := by
      simp [step, phaseStep, digits, other, found.1, found.2]
    rw [unmarked] at marked
    cases marked
  · rintro ⟨same, follows⟩
    rw [point same] at follows
    cases follows

/-- A fraction is scanned with its point; without one the digits end. -/
theorem scansNumber_fraction (text : List Char) (digits : s.phase = .digits false)
    (ends : digitFollows text = false) :
    ∃ rest t, text = fractionOf text ++ rest ∧ ScansNumber s (fractionOf text) rest t ∧
      (fractionOf text).getLast? ≠ some '.' ∧
      (('.' ∈ fractionOf text → (∀ c ∈ fractionOf text, isMark c = false) →
        ∀ c ∈ rest.head?, isMark c = false) →
        (∀ c after, rest = c :: after → Unmarked t c after) → Fresh t rest) := by
  rcases fractionOf_cases text with ⟨absent, noPoint⟩ | ⟨decimals, after, rfl, spelled, nonempty,
    isDigit, ends'⟩
  · rw [absent]
    refine ⟨text, s, rfl, ⟨.nil s text, rfl, rfl⟩, by simp, fun _ unmarked => ?_⟩
    cases text with
    | nil => exact fresh_nil s
    | cons c rest =>
      refine fresh_of_unmarked digits ends (unmarked c rest rfl) ?_
      rintro rfl
      exact noPoint rest rfl
  · have follows (rest : List Char) : digitFollows (decimals ++ rest) = true := by
      cases decimals with
      | nil => exact absurd rfl nonempty
      | cons c decimals => exact isDigit c List.mem_cons_self
    have point := phaseStep_point digits (follows after)
    have first : ScansNumber s ['.'] (decimals ++ after)
        { s.goOn .fraction with previous := '.' } := by
      refine ⟨?_, rfl, rfl⟩
      rw [← step_of_phaseStep point]
      exact .single ⟨⟨fun _ => rfl, fun _ => ⟨digits, rfl, follows after⟩⟩,
        fun opened => absurd opened.1 (by decide)⟩
    obtain ⟨t, second, phase⟩ := scansNumber_digits
      (s := { s.goOn .fraction with previous := '.' }) after (.inr (.inl rfl)) isDigit
    obtain ⟨rest, u, split, third, unpointed, fresh⟩ := scansNumber_power after phase ends'
    rw [spelled]
    refine ⟨rest, u, ?_, ?_, ?_, fun noMark _ => fresh fun unmarked => ?_⟩
    · rw [List.append_assoc, List.append_assoc, ← split]
      rfl
    · rw [split] at first second
      rw [← List.append_assoc] at first
      exact first.append (second.append third)
    · have tail : '.' ∉ decimals ++ powerOf after := by
        rw [List.mem_append, not_or]
        exact ⟨digits_unpointed isDigit, unpointed⟩
      rw [List.getLast?_append, List.getLast?_eq_some_getLast (by simp [nonempty])]
      exact fun last => tail (Option.some.inj last ▸ List.getLast_mem _)
    · refine noMark (by simp) fun c inside => ?_
      rcases List.mem_append.mp inside with first | inside
      · rw [List.mem_singleton.mp first]
        rfl
      · rcases List.mem_append.mp inside with digit | power
        · exact digit_not_mark (isDigit c digit)
        · exact unmarked c power

theorem number?_cases {text literal : List Char} (found : number? text = some literal) :
    (∃ digits rest, text = '0' :: 'x' :: (digits ++ rest) ∧ literal = '0' :: 'x' :: digits ∧
      (∀ c ∈ digits, c.isAlphanum = true) ∧ ∀ c ∈ rest.head?, c.isAlphanum = false) ∨
    ∃ whole rest, text = whole ++ rest ∧ literal = whole ++ fractionOf rest ∧ whole ≠ [] ∧
      (∀ c ∈ whole, c.isDigit = true) ∧ digitFollows rest = false := by
  unfold number? at found
  split at found
  · rename_i rest
    split at found
    · cases found
      exact .inr ⟨['0'], 'x' :: rest, rfl, rfl, by simp, by simp, rfl⟩
    · cases found
      refine .inl ⟨rest.takeWhile Char.isAlphanum, rest.dropWhile Char.isAlphanum, ?_, rfl, ?_, ?_⟩
      · rw [List.takeWhile_append_dropWhile]
      · exact fun c member => List.mem_takeWhile_imp member
      · intro c head
        have stops := List.head?_dropWhile_not Char.isAlphanum rest
        rw [Option.mem_def.mp head] at stops
        exact stops
  · obtain ⟨whole, digits, found⟩ := Option.bind_eq_some_iff.mp found
    cases found
    obtain ⟨rest, rfl, nonempty, isDigit, ends⟩ := digitsOf?_split digits
    exact .inr ⟨whole, rest, rfl, by simp, nonempty, isDigit, ends⟩

theorem digitFollows_of_number? {literal : List Char} (found : number? text = some literal) :
    digitFollows text = true := by
  rcases number?_cases found with ⟨digits, rest, rfl, -⟩ | ⟨whole, rest, rfl, -, nonempty, shape, -⟩
  · rfl
  · cases whole with
    | nil => exact absurd rfl nonempty
    | cons c whole => exact shape c List.mem_cons_self

/-- A number literal that stands in no index is scanned with its point. -/
theorem scansNumber {braces : Nat} {literal : List Char} (code : s.mode = .code braces)
    (fresh : Fresh s text) (unpointed : s.previous ≠ '.') (found : number? text = some literal) :
    ∃ rest t, text = literal ++ rest ∧ ScansNumber s literal rest t ∧ literal ≠ [] ∧
      literal.getLast? ≠ some '.' ∧ (NumberEnds literal rest →
        (∀ c after, rest = c :: after → Unmarked t c after) → Fresh t rest) := by
  have outside : (s.previous == '.') = false := by simpa using unpointed
  rcases number?_cases found with ⟨digits, rest, rfl, rfl, shape, ends⟩ |
    ⟨whole, rest, rfl, rfl, nonempty, shape, ends⟩
  · have zero := scans_first_digit code fresh (by rfl)
    rw [outside] at zero
    have letter := @scans_first_letter { s with phase := .digits false, previous := '0' } braces
      'x' (digits ++ rest) code (fresh_digits rfl rfl rfl (by simp)) rfl
    have tail : WordTail digits := by
      clear found fresh zero letter
      induction digits with
      | nil => exact .nil
      | cons c digits ih =>
        refine .char ?_ (ih fun d member => shape d (List.mem_cons_of_mem c member))
        simp [isWord, shape c List.mem_cons_self]
    obtain ⟨previous, later⟩ := @scans_wordTail
      { s with phase := .word, previous := 'x' } digits rest rfl tail
    have plain : '.' ∉ '0' :: 'x' :: digits := by
      intro inside
      rcases List.mem_cons.mp inside with first | inside
      · cases first
      · rcases List.mem_cons.mp inside with second | inside
        · cases second
        · exact absurd (shape '.' inside) (by decide)
    have scanned : Scans Silent s ('0' :: 'x' :: digits) rest
        { s with phase := .word, previous } := zero.append (letter.append later)
    refine ⟨rest, _, rfl, ⟨scanned.numeral plain, rfl, rfl⟩, by simp, ?_, fun regular _ => ?_⟩
    · intro last
      exact plain (List.mem_of_getLast? last)
    · obtain ⟨dash, colons⟩ := regular.hexadecimal ⟨digits, rfl⟩
      refine fresh_after_word rfl code fun c after split => ⟨fun word => ?_, fun colon next => ?_⟩
      · have notAlphanum : c.isAlphanum = false := ends c (by rw [split]; rfl)
        have other : c ≠ '-' := by
          rintro rfl
          exact dash ⟨after, split.symm⟩
        have high : c = '_' ∨ 128 ≤ c.toNat := by simpa [isWord, notAlphanum, other] using word
        rcases high with rfl | high
        · rfl
        · simp [startsWord, high]
      · subst colon
        cases after with
        | nil => cases next
        | cons d after =>
          cases next
          exact colons ⟨after, split.symm⟩
  · obtain ⟨previous, first⟩ := scans_whole code fresh shape nonempty
    rw [outside] at first
    obtain ⟨after, t, split, second, last, fresh⟩ := scansNumber_fraction rest
      (s := { s with phase := .digits false, previous }) rfl ends
    rw [split] at first
    refine ⟨after, t, ?_, ?_, by simp [nonempty], ?_, fun regular unmarked => ?_⟩
    · rw [List.append_assoc, ← split]
    · exact ScansNumber.append ⟨first.numeral (digits_unpointed shape), rfl, rfl⟩ second
    · rw [List.getLast?_append]
      cases fraction : (fractionOf rest).getLast? with
      | some c => simpa [fraction] using last
      | none =>
        intro dot
        exact digits_unpointed shape (List.mem_of_getLast? dot)
    · refine fresh (fun point noMark => ?_) unmarked
      refine regular.fraction (List.mem_append_right _ point) fun c inside => ?_
      rcases List.mem_append.mp inside with digit | inside
      · exact digit_not_mark (shape c digit)
      · exact noMark c inside

end TerraDoc.Hcl.Exponent
