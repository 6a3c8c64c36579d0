import Mathlib.Data.List.TakeWhile
import TerraDoc.Proofs.ByteText
import TerraDoc.Proofs.ExponentScan

namespace TerraDoc

open Text.Utf8

namespace Hcl.Exponent

variable {s t u : State} {c : Char} {first second rest after : List Char}

/-- The next character does not go on with what came before it. -/
def Prompt (s : State) (text : List Char) : Prop :=
  ∀ c rest, text = c :: rest → phaseStep s c rest = (freshStep s c rest, false)

theorem Fresh.prompt {text : List Char} (fresh : Fresh s text) : Prompt s text :=
  fun c rest split => (fresh c rest split).2

/-- A piece of a text is scanned without a bare exponent in it, in one mode, and up to its end. -/
structure Passes (s : State) (piece after : List Char) (t : State) : Prop where
  scanned : Scans Unmarked s piece after t
  mode : t.mode = s.mode
  around : t.around = s.around
  prompt : Prompt t after

theorem Passes.prepend {phase : Phase} {previous : Char}
    (later : Passes { s with phase, previous } second after u)
    (scanned : Scans Unmarked s first (second ++ after) { s with phase, previous }) :
    Passes s (first ++ second) after u :=
  ⟨scanned.append later.scanned, later.mode, later.around, later.prompt⟩

theorem scans_taken (taken : phaseStep s c after = (t, false)) :
    Scans Unmarked s [c] after { t with previous := c } := by
  rw [← step_of_phaseStep taken]
  exact .single (by simp [Unmarked, step, taken])

theorem Prompt.scans (prompt : Prompt s (c :: after)) :
    Scans Unmarked s [c] after { freshStep s c after with previous := c } :=
  scans_taken (prompt c after rfl)

theorem isSign_cases (sign : isSign c = true) : c = '+' ∨ c = '-' := by
  simpa [isSign] using sign

end Hcl.Exponent

namespace Hcl.ByteScan

open Exponent

variable {s : State} {c : Char} {front rest : List Char} {braces stop : Nat}

/-- From a state at some front of a text, the search can stop at an offset. -/
def Stops (s : State) (front rest : List Char) (stop : Nat) : Prop :=
  ∃ piece after t, rest = piece ++ after ∧ Passes s piece after t ∧
    stop = byteLength (front ++ piece)

theorem Stops.prepend {phase : Phase} {previous : Char} (piece : List Char)
    (later : Stops { s with phase, previous } (front ++ piece) rest stop)
    (scanned : Scans Unmarked s piece rest { s with phase, previous }) :
    Stops s front (piece ++ rest) stop := by
  obtain ⟨second, after, t, rfl, passes, rfl⟩ := later
  exact ⟨piece ++ second, after, t, by simp, passes.prepend scanned, by simp⟩

theorem lineEnd?_append (front rest : List Char) :
    lineEnd? (front ++ rest) (byteLength front) =
      some (byteLength (front ++ rest.takeWhile (· != '\n'))) := by
  rw [lineEnd?, if_pos (by simp), drop_bytes, findIdx?_bytes]
  split
  · simp
  · rename_i missing
    have whole : rest.takeWhile (· != '\n') = rest :=
      List.takeWhile_eq_self_iff.mpr fun c member => by
        rw [bne_iff_ne]
        rintro rfl
        exact missing member
    rw [whole]
    rfl

/-- A line comment goes up to the line feed. -/
theorem stops_lineComment (prompt : Prompt s (c :: rest)) (other : c ≠ '\n')
    (opens : freshStep s c rest = s.goOn .lineComment) :
    ∃ stop, lineEnd? (front ++ c :: rest) (byteLength front) = some stop ∧
      Stops s front (c :: rest) stop := by
  have taken : (c :: rest).takeWhile (· != '\n') = c :: rest.takeWhile (· != '\n') :=
    List.takeWhile_cons_of_pos (by simpa using other)
  have split := List.takeWhile_append_dropWhile (p := (· != '\n')) (l := rest)
  generalize line : rest.takeWhile (· != '\n') = text at taken split
  generalize left : rest.dropWhile (· != '\n') = after at split
  subst split
  have start := prompt.scans
  rw [opens] at start
  obtain ⟨previous, more⟩ := @scans_stay { s.goOn .lineComment with previous := c } text after
    fun d member p rest => by
      rw [← line] at member
      have feed := List.mem_takeWhile_imp member
      simp [phaseStep, State.goOn, bne_iff_ne.mp feed]
  refine ⟨_, lineEnd?_append front _, c :: text, after, _, rfl, ⟨start.append (scans_unmarked more),
    rfl, rfl, ?_⟩, by rw [taken]⟩
  rintro d rest rfl
  have feed : d = '\n' := by
    have ends := List.head?_dropWhile_not (· != '\n') (text ++ d :: rest)
    rw [left] at ends
    simpa using ends
  simp [phaseStep, State.goOn, feed]

/-- The body of a block comment, with the signs that close it or up to the end of the text. -/
theorem passes_blockComment (phase : s.phase = .blockComment) (rest : List Char) :
    ∃ piece after t, rest = piece ++ after ∧ Passes s piece after t ∧
      (find? ['*', '/'] rest).elim (byteLength rest) (· + 2) = byteLength piece := by
  induction rest generalizing s with
  | nil => exact ⟨[], [], s, rfl, ⟨.nil s [], rfl, rfl, (fresh_nil s).prompt⟩, rfl⟩
  | cons c rest ih =>
    by_cases closes : ['*', '/'].isPrefixOf (c :: rest) = true
    · obtain ⟨after, split⟩ := List.isPrefixOf_iff_prefix.mp closes
      obtain ⟨rfl, rfl⟩ := List.cons.inj split
      have first : phaseStep s '*' ('/' :: after) = (s.goOn (.skip 1 .start), false) := by
        simp [phaseStep, phase]
      have scanned := scans_unmarked (scans_pair .start first rfl (by decide) (by simp))
      refine ⟨['*', '/'], after, _, rfl, ⟨scanned, rfl, rfl, (fresh_start rfl after).prompt⟩, ?_⟩
      rw [find?, if_pos closes]
      rfl
    · have here : phaseStep s c rest = (s, false) := by
        simp only [phaseStep, phase]
        split
        · simp at closes
        · rfl
      obtain ⟨piece, after, t, rfl, passes, length⟩ := ih (s := { s with previous := c }) phase
      refine ⟨c :: piece, after, t, rfl, passes.prepend (scans_taken here), ?_⟩
      rw [find?, if_neg closes, byteLength_cons c piece, ← length]
      cases find? ['*', '/'] (piece ++ after) with
      | none => simp [byteLength_cons]
      | some place => simp [Nat.add_assoc]

theorem stops_blockComment (code : s.mode = .code braces)
    (prompt : Prompt s ('/' :: '*' :: rest)) :
    ∃ stop, commentEnd? (front ++ '/' :: '*' :: rest) (byteLength front) = some stop ∧
      Stops s front ('/' :: '*' :: rest) stop := by
  have opened : Scans Unmarked s ['/', '*'] rest
      { s with phase := .blockComment, previous := '*' } := by
    have first := prompt.scans
    simp only [freshStep, code, codeStep] at first
    have second := scans_taken (phaseStep_skip_one
      (s := { s.goOn (.skip 1 .blockComment) with previous := '/' }) rfl '*' rest)
    exact Scans.append first second
  obtain ⟨piece, after, t, split, passes, length⟩ := passes_blockComment
    (s := { s with phase := .blockComment, previous := '*' }) rfl rest
  have ended : commentEnd? (front ++ '/' :: '*' :: rest) (byteLength front) =
      some ((find? ['*', '/'] rest).elim (byteLength (front ++ '/' :: '*' :: rest))
        (byteLength front + 2 + · + 2)) := by
    rw [commentEnd?, splitAt?_signs (by decide) (by decide)]
    rfl
  refine ⟨_, ended, Stops.prepend ['/', '*'] ⟨piece, after, t, split, passes, ?_⟩ opened⟩
  generalize find? ['*', '/'] rest = found at length
  cases found with
  | none =>
    have ends : byteLength rest = byteLength piece := length
    simp [byteLength_ascii, ends]
  | some place =>
    have ends : place + 2 = byteLength piece := length
    have signs : byteLength ['/', '*'] = 2 := rfl
    simp only [Option.elim_some, byteLength_append, signs, ← ends]
    omega

/-- All bytes of a character of a word go on with the word. -/
theorem wordLength_cons (word : isWord c = true) (rest : List Char) :
    wordLength (bytes (c :: rest)) = c.utf8Size + wordLength (bytes rest) := by
  have all : ∀ b ∈ bytes [c], isWord b = true := by
    intro b member
    by_cases low : c.toNat < 128
    · rw [bytes_ascii low] at member
      rwa [List.mem_singleton.mp member]
    · have high := bytes_high (Nat.le_of_not_lt low) member
      simp [isWord, high]
  have length := length_bytes [c]
  rw [byteLength_cons, byteLength_nil, Nat.add_zero] at length
  rw [bytes_cons, ← length]
  generalize bytes [c] = front at all
  induction front with
  | nil => simp
  | cons b front ih =>
    have later := ih fun d member => all d (List.mem_cons_of_mem b member)
    rw [List.cons_append, wordLength.eq_def]
    simp only [if_pos (all b List.mem_cons_self), later, List.length_cons]
    omega

/-- What goes on with a word, and what does not any more. -/
theorem exists_wordTail (rest : List Char) :
    ∃ tail after, rest = tail ++ after ∧ WordTail tail ∧
      wordLength (bytes rest) = byteLength tail ∧ ∀ c more, after = c :: more →
        isWord c = false ∧ ¬ (c = ':' ∧ more.head? = some ':') := by
  induction length : rest.length using Nat.strongRecOn generalizing rest with
  | ind n ih =>
    subst length
    cases rest with
    | nil => exact ⟨[], [], rfl, .nil, rfl, by simp⟩
    | cons c rest =>
      by_cases word : isWord c = true
      · obtain ⟨tail, after, split, shape, length, ends⟩ :=
          ih rest.length (Nat.lt_succ_self _) rest rfl
        refine ⟨c :: tail, after, by rw [split]; rfl, .char word shape, ?_, ends⟩
        rw [wordLength_cons word, length, byteLength_cons]
      · by_cases colons : c = ':' ∧ rest.head? = some ':'
        · obtain ⟨rfl, next⟩ := colons
          obtain ⟨more, rfl⟩ := List.head?_eq_some_iff.mp next
          obtain ⟨tail, after, split, shape, length, ends⟩ :=
            ih more.length (by simp only [List.length_cons]; omega) more rfl
          refine ⟨':' :: ':' :: tail, after, by rw [split]; rfl, .colons shape, ?_, ends⟩
          rw [bytes_ascii (by decide), bytes_ascii (by decide), wordLength.eq_def]
          simp [length, byteLength_ascii, show isWord ':' = false by decide]
        · refine ⟨[], c :: rest, rfl, .nil, ?_, ?_⟩
          · have low : c.toNat < 128 := by
              by_contra high
              simp [isWord, Nat.le_of_not_lt high] at word
            have single : ∀ more, bytes rest = ':' :: more → c ≠ ':' := by
              intro more same colon
              have next : byteAt rest 0 = ':' := by rw [byteAt, same]; rfl
              obtain ⟨after, rfl⟩ := (byteAt_eq_iff (by decide)).mp next
              exact colons ⟨colon, rfl⟩
            rw [bytes_ascii low, wordLength.eq_def]
            simp only [if_neg word]
            split
            · rename_i more same
              exact absurd rfl (single more same)
            · rfl
          · rintro _ _ ⟨⟩
            exact ⟨by simpa using word, colons⟩

theorem startsWord_byteAt (c : Char) (rest : List Char) :
    startsWord (byteAt (c :: rest) 0) = startsWord c := by
  by_cases low : c.toNat < 128
  · rw [byteAt_zero low]
  · have high := Nat.le_of_not_lt low
    simp [startsWord, high, byteAt_zero_high high rest]

theorem stops_word (code : s.mode = .code braces) (prompt : Prompt s (c :: rest))
    (word : startsWord c = true) :
    Stops s front (c :: rest) (wordEnd (front ++ c :: rest) (byteLength front)) := by
  obtain ⟨tail, after, rfl, shape, length, ends⟩ := exists_wordTail rest
  have first := prompt.scans
  simp only [freshStep, code, codeStep_word s braces _ word] at first
  obtain ⟨previous, more⟩ :=
    @scans_wordTail { s.goOn .word with previous := c } tail after rfl shape
  refine ⟨c :: tail, after, _, rfl, ⟨first.append (scans_unmarked more), rfl, rfl, ?_⟩, ?_⟩
  · rintro d rest rfl
    obtain ⟨other, single⟩ := ends d rest rfl
    exact (fresh_word rfl other single).prompt d rest rfl
  · rw [wordEnd, drop_bytes, wordLength_cons (isWord_of_startsWord word), length, byteLength_append,
      byteLength_cons]

theorem isDigit_byteAt (rest : List Char) : (byteAt rest 0).isDigit = digitFollows rest := by
  rw [test_byteAt Char.isDigit (fun c digit => ?_) rfl]
  · cases rest <;> rfl
  · have range := digit_range digit
    omega

theorem isSign_byteAt (rest : List Char) : isSign (byteAt rest 0) = signFollows rest := by
  rw [test_byteAt isSign (fun c sign => ?_) rfl]
  · cases rest <;> rfl
  · rcases isSign_cases sign with rfl | rfl <;> decide

theorem isMark_byteAt (rest : List Char) : isMark (byteAt rest 0) = rest.head?.any isMark := by
  rw [test_byteAt isMark (fun c mark => ?_) rfl]
  rcases isMark_cases mark with rfl | rfl <;> decide

theorem exists_digits (front rest : List Char) :
    ∃ digits after, rest = digits ++ after ∧ (∀ c ∈ digits, c.isDigit = true) ∧
      digitFollows after = false ∧
      digitsEnd (front ++ rest) (byteLength front) = byteLength (front ++ digits) := by
  have ascii (c : Char) (digit : c.isDigit = true) : c.toNat < 128 := by
    have range := digit_range digit
    omega
  refine ⟨rest.takeWhile Char.isDigit, rest.dropWhile Char.isDigit,
    List.takeWhile_append_dropWhile.symm, fun c member => List.mem_takeWhile_imp member, ?_, ?_⟩
  · have stops := List.head?_dropWhile_not Char.isDigit rest
    cases left : rest.dropWhile Char.isDigit with
    | nil => rfl
    | cons c more =>
      rw [left] at stops
      simpa [digitFollows] using stops
  · rw [digitsEnd, drop_bytes, takeWhile_bytes ascii, byteLength_append,
      byteLength_of_ascii fun c member => ascii c (List.mem_takeWhile_imp member)]

/-- A bare exponent begins where the running scan finds one after digits. -/
theorem powerBegins_append (front : List Char) (mark : isMark c = true) (rest : List Char) :
    powerBegins (front ++ c :: rest) (byteLength front) = powerFollows rest := by
  have low : c.toNat < 128 := by rcases isMark_cases mark with rfl | rfl <;> decide
  have here : byteAt (front ++ c :: rest) (byteLength front) = c :=
    (byteAt_append front (c :: rest) 0).trans (byteAt_zero low rest)
  have next (k : Nat) : byteAt (front ++ c :: rest) (byteLength front + (k + 1)) =
      byteAt rest k := by
    rw [byteAt_append, byteAt_succ low]
  rw [powerBegins, here, mark, Bool.true_and, next 0, isSign_byteAt, apply_ite (byteAt _), next 0,
    next 1]
  cases rest with
  | nil => rfl
  | cons d rest =>
    by_cases sign : isSign d = true
    · have ascii : d.toNat < 128 := by rcases isSign_cases sign with rfl | rfl <;> decide
      have notDigit : d.isDigit = false := by rcases isSign_cases sign with rfl | rfl <;> rfl
      rw [signFollows, if_pos sign, byteAt_succ ascii, isDigit_byteAt]
      cases rest <;> simp [powerFollows, digitFollows, sign, notDigit]
    · rw [signFollows, if_neg sign, isDigit_byteAt]
      cases rest <;> simp [powerFollows, digitFollows, sign]

theorem stops_powerDigits (front rest : List Char) (phase : s.phase = .power) :
    Stops s front rest (digitsEnd (front ++ rest) (byteLength front)) := by
  obtain ⟨digits, after, rfl, shape, ends, stopped⟩ := exists_digits front rest
  obtain ⟨previous, scanned⟩ := @scans_digits s digits after (.inr (.inr phase)) shape
  refine ⟨digits, after, _, rfl, ⟨scans_unmarked scanned, rfl, rfl, ?_⟩, stopped⟩
  rintro c more rfl
  exact (@fresh_power { s with previous } c more phase ends).prompt c more rfl

/-- The sign and the digits of an exponent whose mark has been passed. -/
theorem stops_power (front : List Char) (mark : isMark c = true)
    (phase : s.phase = if signFollows rest = true then .skip 1 .power else .power) :
    Stops s (front ++ [c]) rest (powerEnd (front ++ c :: rest) (byteLength front)) := by
  have low : c.toNat < 128 := by rcases isMark_cases mark with rfl | rfl <;> decide
  have next : byteAt (front ++ c :: rest) (byteLength front + 1) = byteAt rest 0 := by
    rw [byteAt_append, byteAt_succ low]
  rw [powerEnd, next, isSign_byteAt]
  by_cases sign : signFollows rest = true
  · obtain ⟨d, rest, rfl⟩ : ∃ d more, rest = d :: more := by
      cases rest with
      | nil => cases sign
      | cons d more => exact ⟨d, more, rfl⟩
    have ascii : d.toNat < 128 := by rcases isSign_cases sign with rfl | rfl <;> decide
    rw [if_pos sign] at phase ⊢
    have first : Scans Unmarked s [d] rest { s with phase := .power, previous := d } :=
      scans_taken (phaseStep_skip_one phase d rest)
    have later := stops_powerDigits (s := { s with phase := .power, previous := d })
      (front ++ [c] ++ [d]) rest rfl
    refine Stops.prepend [d] ?_ first
    simpa [byteLength_ascii, low, ascii] using later
  · rw [if_neg sign] at phase ⊢
    have later := stops_powerDigits (front ++ [c]) rest phase
    simpa [byteLength_ascii, low] using later

/-- A fraction and its exponent. -/
theorem stops_fraction {afterPoint : Bool} (front : List Char)
    (phase : s.phase = .digits afterPoint) (follows : digitFollows rest = true)
    (ends : digitsEnd (front ++ '.' :: rest) (byteLength front + 1) = stop) :
    Stops s front ('.' :: rest) (if isMark (byteAt (front ++ '.' :: rest) stop) = true
      then powerEnd (front ++ '.' :: rest) stop else stop) := by
  obtain ⟨fraction, after, rfl, shape, other, stopped⟩ := exists_digits (front ++ ['.']) rest
  have nonempty : fraction ≠ [] := by
    rintro rfl
    rw [List.nil_append, other] at follows
    cases follows
  obtain ⟨previous, scanned⟩ := @scans_fraction s afterPoint fraction after phase shape nonempty
  have place : stop = byteLength (front ++ '.' :: fraction) := by
    rw [← ends]
    simpa [byteLength_ascii] using stopped
  have text : front ++ '.' :: (fraction ++ after) = (front ++ '.' :: fraction) ++ after := by simp
  have byte : byteAt ((front ++ '.' :: fraction) ++ after) (byteLength (front ++ '.' :: fraction)) =
      byteAt after 0 := byteAt_append _ _ 0
  rw [text, place, byte, isMark_byteAt]
  refine Stops.prepend ('.' :: fraction) ?_ scanned
  cases after with
  | nil => exact ⟨[], [], _, rfl, ⟨.nil _ _, rfl, rfl, (fresh_nil _).prompt⟩, by simp⟩
  | cons c more =>
    by_cases mark : isMark c = true
    · rw [List.head?_cons, Option.any_some, if_pos mark]
      have taken : phaseStep { s with phase := .fraction, previous } c more =
          ({ s with
            phase := if signFollows more = true then .skip 1 .power else .power,
            previous }, false) := by
        simp [phaseStep, mark, show c.isDigit = false from other, State.goOn]
      exact Stops.prepend [c] (stops_power _ mark rfl) (scans_taken taken)
    · rw [List.head?_cons, Option.any_some, if_neg mark]
      have fresh : Fresh { s with phase := .fraction, previous } (c :: more) :=
        fresh_fraction rfl other (by simpa using mark)
      exact ⟨[], c :: more, _, rfl, ⟨.nil _ _, rfl, rfl, fresh.prompt⟩, by simp⟩

end Hcl.ByteScan

end TerraDoc
