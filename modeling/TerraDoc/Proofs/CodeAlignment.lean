import TerraDoc.Proofs.ByteHeredoc
import TerraDoc.Proofs.ExponentInsertion
import TerraDoc.Proofs.ScanAlignment

namespace TerraDoc

open Text.Utf8

namespace Hcl.ByteScan

open Exponent

variable {text front rest : List Char} {s : State} {c : Cursor} {braces : Nat} {b d : Char}

/-- The character before tells whether a point stands before an offset. -/
theorem pointBefore?_append (front rest : List Char) :
    pointBefore? (front ++ rest) (byteLength front) = some (front.getLast?.getD ' ' == '.') := by
  rcases List.eq_nil_or_concat front with rfl | ⟨before, d, rfl⟩
  · rfl
  · obtain ⟨k, length⟩ : ∃ k, byteLength [d] = k + 1 := by
      have size := d.utf8Size_pos
      exact ⟨d.utf8Size - 1, by rw [byteLength_cons, byteLength_nil]; omega⟩
    have within : k < (bytes [d]).length := by
      rw [length_bytes, length]
      exact Nat.lt_succ_self k
    have last : (bytes (before ++ [d] ++ rest))[byteLength before + k]? = some (bytes [d])[k] := by
      rw [List.append_assoc, getElem?_bytes, bytes_append, List.getElem?_append_left within]
      exact List.getElem?_eq_getElem within
    rw [List.concat_eq_append, byteLength_append, length, ← Nat.add_assoc, pointBefore?, last,
      List.getLast?_concat, Option.map_some, Option.getD_some]
    by_cases low : d.toNat < 128
    · have single : bytes [d] = [d] := bytes_ascii low []
      simp [single]
    · have high := bytes_high (Nat.le_of_not_lt low) (List.getElem_mem within)
      have other (e : Char) (above : 128 ≤ e.toNat) : (e == '.') = false := by
        rw [beq_eq_false_iff_ne]
        rintro rfl
        exact absurd above (by decide)
      rw [other _ high, other d (Nat.le_of_not_lt low)]

theorem prompt_digits {afterPoint : Bool} (front : List Char)
    (phase : s.phase = .digits afterPoint) (ends : digitFollows rest = false)
    (noPower : (!afterPoint && powerBegins (front ++ rest) (byteLength front)) = false)
    (noFraction : (byteAt rest 0 == '.' && (byteAt rest 1).isDigit) = false) : Prompt s rest := by
  cases rest with
  | nil => exact (fresh_nil s).prompt
  | cons d rest =>
    refine (fresh_digits phase ends ?_ ?_).prompt
    · by_cases mark : isMark d = true
      · rw [powerBegins_append front mark] at noPower
        simpa [mark] using noPower
      · simp [mark]
    · rintro ⟨rfl, follows⟩
      rw [byteAt_zero (by decide), byteAt_succ (by decide), isDigit_byteAt, follows] at noFraction
      cases noFraction

theorem Along.power (along : Along text c.found front rest s)
    (modes : c.modes = s.mode :: s.around) (phase : s.phase = .digits false)
    (begins : powerBegins text (byteLength front) = true) :
    Aligned text { c with
      offset := powerEnd text (byteLength front), found := c.found ++ [byteLength front] } := by
  have split := along.split
  subst split
  have marked : isMark (byteAt rest 0) = true := by
    rw [← byteAt_append front]
    exact (Bool.and_eq_true_iff.mp begins).1
  rw [isMark_byteAt] at marked
  cases rest with
  | nil => cases marked
  | cons d rest =>
    have mark : isMark d = true := marked
    rw [powerBegins_append front mark] at begins
    have bare := step_bare phase mark begins
    exact (along.mark bare).goTo
      (c := { c with found := c.found ++ [byteLength front] }) modes (stops_power front mark rfl)

theorem Stands.numberRound (stands : Stands text c front (d :: rest) s)
    (code : s.mode = .code braces) (digit : d.isDigit = true) :
    ∃ next, numberRound? text c = some next ∧ Aligned text next := by
  obtain ⟨digits, after, whole, shape, ends, stopped⟩ := exists_digits front (d :: rest)
  rw [← stands.along.split, ← stands.offset] at stopped
  cases digits with
  | nil =>
    rw [← show d :: rest = after from whole] at ends
    rw [show d.isDigit = false from ends] at digit
    cases digit
  | cons e digits =>
    obtain ⟨rfl, rfl⟩ := List.cons.inj whole
    have first := stands.prompt.scans
    simp only [freshStep, code, codeStep_digit s braces _ digit] at first
    obtain ⟨previous, more⟩ := @scans_digits
      { s.goOn (.digits (s.previous == '.')) with previous := d } digits after (.inl ⟨_, rfl⟩)
      fun e member => shape e (List.mem_cons_of_mem d member)
    have passed := stands.along.pass (d :: digits) (first.append (scans_unmarked more))
    have point : pointBefore? text c.offset = some (s.previous == '.') := by
      rw [stands.along.split, stands.offset, pointBefore?_append, stands.along.previous]
    have byte (k : Nat) : byteAt text (byteLength (front ++ d :: digits) + k) = byteAt after k := by
      rw [passed.split, byteAt_append]
    unfold numberRound?
    simp only [point, stopped, Option.bind_eq_bind, Option.bind_some]
    split
    · rename_i begins
      obtain ⟨bare, begins⟩ := Bool.and_eq_true_iff.mp begins
      rw [Bool.not_eq_true'] at bare
      refine ⟨_, rfl, passed.power stands.modes ?_ begins⟩
      rw [bare]
      rfl
    split
    · rename_i noPower begins
      obtain ⟨dot, follows⟩ := Bool.and_eq_true_iff.mp begins
      have point : byteAt after 0 = '.' := (byte 0).symm.trans (beq_iff_eq.mp dot)
      obtain ⟨fraction, rfl⟩ := (byteAt_eq_iff (by decide)).mp point
      rw [byte 1, byteAt_succ (by decide), isDigit_byteAt] at follows
      have stops := stops_fraction (front ++ d :: digits)
        (s := { s.goOn (.digits (s.previous == '.')) with previous }) rfl follows rfl
      rw [← passed.split] at stops
      exact ⟨_, rfl, passed.goTo stands.modes stops⟩
    · rename_i noPower noFraction
      refine ⟨_, rfl, passed.goTo stands.modes
        ⟨[], after, _, rfl, ⟨.nil _ _, rfl, rfl, ?_⟩, by simp⟩⟩
      refine prompt_digits (front ++ d :: digits) rfl ends ?_ ?_
      · rw [← passed.split]
        simpa using noPower
      · rw [← byte 0, ← byte 1]
        simpa using noFraction

theorem codeStep_other (s : State) (braces : Nat) {rest : List Char} (hash : d ≠ '#')
    (line : ¬ (d = '/' ∧ byteAt rest 0 = '/')) (block : ¬ (d = '/' ∧ byteAt rest 0 = '*'))
    (quote : d ≠ '"') (heredoc : ¬ (d = '<' ∧ byteAt rest 0 = '<')) (opening : d ≠ '{')
    (closing : d ≠ '}') (digit : d.isDigit = false) (word : startsWord d = false) :
    codeStep s braces d rest = s.goOn .start := by
  unfold codeStep
  split
  · exact absurd rfl hash
  · exact absurd ⟨rfl, byteAt_zero (by decide) _⟩ line
  · exact absurd ⟨rfl, byteAt_zero (by decide) _⟩ block
  · exact absurd rfl quote
  · exact absurd ⟨rfl, byteAt_zero (by decide) _⟩ heredoc
  · exact absurd rfl opening
  · exact absurd rfl closing
  · simp [digit, word]

namespace Stands

theorem byte_eq_iff (stands : Stands text c front (d :: rest) s)
    (here : (bytes text)[c.offset]? = some b) {e : Char} (sign : 0 < e.toNat ∧ e.toNat < 128) :
    b = e ↔ d = e := by
  rw [← stands.byte here, byteAt_eq_iff sign]
  simp

theorem pair_iff (stands : Stands text c front (d :: rest) s)
    (here : (bytes text)[c.offset]? = some b) {e : Char} (sign : 0 < e.toNat ∧ e.toNat < 128)
    (f : Char) :
    (decide (b = e) && decide (byteAt text (c.offset + 1) = f)) = true ↔
      d = e ∧ byteAt rest 0 = f := by
  rw [Bool.and_eq_true, decide_eq_true_eq, decide_eq_true_eq, stands.byte_eq_iff here sign]
  refine and_congr_right fun same => ?_
  rw [stands.next (same ▸ sign.2) 0]

theorem token (stands : Stands text c front (d :: rest) s) {stop? : Option Nat}
    (ends : ∃ stop, stop? = some stop ∧ Stops s front (d :: rest) stop) :
    ∃ next, stop?.map c.goTo = some next ∧ Aligned text next := by
  obtain ⟨stop, rfl, stops⟩ := ends
  exact ⟨_, rfl, stands.along.goTo stands.modes stops⟩

theorem closing (stands : Stands text c front ('}' :: rest) s) (code : s.mode = .code braces) :
    ∃ next, (if (decide (braces = 0) && !s.around.isEmpty) = true then
        some { c with offset := c.offset + 1, modes := s.around }
      else some { c with offset := c.offset + 1, modes := .code (braces - 1) :: s.around }) =
        some next ∧ Aligned text next := by
  have fresh : freshStep s '}' rest = codeStep s braces '}' rest := by
    rw [freshStep, code]
  by_cases inside : (decide (braces = 0) && !s.around.isEmpty) = true
  · rw [if_pos inside]
    obtain ⟨mode, around, shape⟩ : ∃ mode around, s.around = mode :: around :=
      List.exists_cons_of_ne_nil (by simpa using (Bool.and_eq_true_iff.mp inside).2)
    have leaves : freshStep s '}' rest = s.leave := fresh.trans (if_pos inside)
    exact ⟨_, rfl, stands.sign (by decide) leaves (leave_phase s) (by simp [State.leave, shape])⟩
  · rw [if_neg inside]
    exact ⟨_, rfl, stands.sign (by decide) (fresh.trans (if_neg inside)) rfl rfl⟩

theorem codeRound (stands : Stands text c front (d :: rest) s) (code : s.mode = .code braces)
    (here : (bytes text)[c.offset]? = some b) :
    ∃ next, codeRound? text c braces s.around b = some next ∧ Aligned text next := by
  have split := stands.along.split
  subst split
  have is (e : Char) (sign : 0 < e.toNat ∧ e.toNat < 128) := stands.byte_eq_iff here sign
  have pair (e f : Char) (sign : 0 < e.toNat ∧ e.toNat < 128) := stands.pair_iff here sign f
  have digits : b.isDigit = d.isDigit := by
    rw [← stands.byte here, isDigit_byteAt, digitFollows]
  have words : startsWord b = startsWord d := by
    rw [← stands.byte here, startsWord_byteAt]
  have fresh (t : State) (taken : codeStep s braces d rest = t) : freshStep s d rest = t := by
    simp only [freshStep, code, taken]
  unfold codeRound?
  dsimp only
  -- The branches in the order of the search, each with the tokens before it ruled out.
  by_cases hash : d = '#'
  · subst hash
    rw [if_pos ((is '#' (by decide)).mpr rfl), stands.offset]
    exact stands.token (stops_lineComment stands.prompt (by decide) (fresh _ rfl))
  rw [if_neg (mt (is '#' (by decide)).mp hash)]
  by_cases line : d = '/' ∧ byteAt rest 0 = '/'
  · rw [if_pos ((pair '/' '/' (by decide)).mpr line), stands.offset]
    obtain ⟨rfl, next⟩ := line
    obtain ⟨rest, rfl⟩ := (byteAt_eq_iff (by decide)).mp next
    exact stands.token (stops_lineComment stands.prompt (by decide) (fresh _ rfl))
  rw [if_neg (mt (pair '/' '/' (by decide)).mp line)]
  by_cases block : d = '/' ∧ byteAt rest 0 = '*'
  · rw [if_pos ((pair '/' '*' (by decide)).mpr block), stands.offset]
    obtain ⟨rfl, next⟩ := block
    obtain ⟨rest, rfl⟩ := (byteAt_eq_iff (by decide)).mp next
    exact stands.token (stops_blockComment code stands.prompt)
  rw [if_neg (mt (pair '/' '*' (by decide)).mp block)]
  by_cases quote : d = '"'
  · subst quote
    rw [if_pos ((is '"' (by decide)).mpr rfl)]
    exact ⟨_, rfl, stands.sign (by decide) (fresh (s.enter .quoted .start) rfl) rfl
      (congrArg (Mode.quoted :: ·) stands.modes)⟩
  rw [if_neg (mt (is '"' (by decide)).mp quote)]
  by_cases heredoc : d = '<' ∧ byteAt rest 0 = '<'
  · rw [if_pos ((pair '<' '<' (by decide)).mpr heredoc), stands.offset]
    obtain ⟨rfl, next⟩ := heredoc
    obtain ⟨rest, rfl⟩ := (byteAt_eq_iff (by decide)).mp next
    exact stands.token (stops_heredoc code stands.prompt)
  rw [if_neg (mt (pair '<' '<' (by decide)).mp heredoc)]
  by_cases opening : d = '{'
  · subst opening
    rw [if_pos ((is '{' (by decide)).mpr rfl)]
    exact ⟨_, rfl, stands.sign (by decide) (fresh _ rfl) rfl rfl⟩
  rw [if_neg (mt (is '{' (by decide)).mp opening)]
  by_cases closing : d = '}'
  · subst closing
    rw [if_pos ((is '}' (by decide)).mpr rfl)]
    exact stands.closing code
  rw [if_neg (mt (is '}' (by decide)).mp closing), digits, words]
  by_cases digit : d.isDigit = true
  · rw [if_pos digit]
    exact stands.numberRound code digit
  rw [if_neg digit]
  by_cases word : startsWord d = true
  · rw [if_pos word, stands.offset]
    exact ⟨_, rfl, stands.along.goTo stands.modes (stops_word code stands.prompt word)⟩
  rw [if_neg word]
  have low : d.toNat < 128 := by
    by_contra high
    simp [startsWord, Nat.le_of_not_lt high] at word
  have other := codeStep_other s braces hash line block quote heredoc opening closing
    (by simpa using digit) (by simpa using word)
  exact ⟨_, rfl, stands.sign low (fresh _ other) rfl stands.modes⟩

end Stands

/-- Inside the text a round goes on beside the scan, as long as the outermost mode is code. -/
theorem Aligned.round (aligned : Aligned text c)
    (outermost : ∃ inner braces, c.modes = inner ++ [.code braces])
    (inside : c.offset < byteLength text) :
    ∃ mode around next, c.modes = mode :: around ∧ round? text c mode around = some next ∧
      Aligned text next := by
  obtain ⟨front, rest, s, along, modes, place⟩ := aligned
  have total : byteLength text = byteLength front + byteLength rest := by
    rw [along.split, byteLength_append]
  obtain ⟨b, here⟩ : ∃ b, (bytes text)[c.offset]? = some b := by
    rw [← length_bytes] at inside
    exact ⟨_, List.getElem?_eq_getElem inside⟩
  have enclosed (quoted : s.mode = .quoted) : s.around ≠ [] := by
    obtain ⟨inner, braces, shape⟩ := outermost
    intro alone
    rw [modes, quoted, alone] at shape
    cases inner with
    | nil => cases shape
    | cons mode inner => simp at shape
  cases place with
  | between offset prompt =>
    cases rest with
    | nil =>
      rw [total, byteLength_nil] at inside
      omega
    | cons d rest =>
      have stands : Stands text c front (d :: rest) s := ⟨along, modes, offset, prompt⟩
      cases mode : s.mode with
      | code braces =>
        obtain ⟨next, taken, aligned⟩ := stands.codeRound mode here
        rw [mode] at modes
        exact ⟨_, _, next, modes, by rw [round?, here]; exact taken, aligned⟩
      | quoted =>
        have aligned := stands.quotedRound mode (enclosed mode) here
        rw [mode] at modes
        exact ⟨_, _, _, modes, by rw [round?, here]; rfl, aligned⟩
  | inside before d split begun open_ quoted start =>
    subst split
    have aligned := along.inside modes begun open_ quoted start here
    rw [quoted] at modes
    exact ⟨_, _, _, modes, by rw [round?, here]; rfl, aligned⟩
  | past ended beyond =>
    rw [total, ended, byteLength_nil] at inside
    omega

theorem Aligned.found_eq (aligned : Aligned text c) (ended : byteLength text ≤ c.offset) :
    c.found = (positions text).map (offsetAt text) := by
  obtain ⟨front, rest, s, along, modes, place⟩ := aligned
  have total : byteLength text = byteLength front + byteLength rest := by
    rw [along.split, byteLength_append]
  have done : rest = [] := by
    cases place with
    | between offset prompt =>
      cases rest with
      | nil => rfl
      | cons d rest =>
        have size := d.utf8Size_pos
        rw [byteLength_cons] at total
        omega
    | inside before d split begun open_ quoted start => omega
    | past ended beyond => exact ended
  rw [← along.found, done]
  simp [positionsFrom]

end Hcl.ByteScan

end TerraDoc
