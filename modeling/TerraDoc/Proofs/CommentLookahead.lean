import TerraDoc.Proofs.CommentSpacing
import TerraDoc.Proofs.NameScan
import TerraDoc.Proofs.NumberScan
import TerraDoc.Proofs.ReaderRun
import TerraDoc.Proofs.ReaderTracking

namespace TerraDoc.Hcl

/-- Two texts that are the same, or the same up to where a comment begins in the first and a space
stands in the second. -/
inductive Alongside : List Char → List Char → Prop where
  | nil : Alongside [] []
  | cons (c : Char) {text other : List Char} (later : Alongside text other) :
      Alongside (c :: text) (c :: other)
  | comment {c : Char} (text other : List Char) (opens : c = '#' ∨ c = '/') :
      Alongside (c :: text) (' ' :: other)

/-- Texts alongside each other that begin with the same character. -/
inductive Level : List Char → List Char → Prop where
  | nil : Level [] []
  | cons (c : Char) {text other : List Char} (later : Alongside text other) :
      Level (c :: text) (c :: other)

/-- A text with another one after its blanks and comments. -/
def Leads (text after : List Char) : Prop :=
  ∀ p tokens, ∃ d, skipGapFrom .blank p tokens text = some d ∧ d.rest = after

/-- Texts alongside each other that are level after their blanks and comments. -/
structure LevelAhead (text other : List Char) : Prop where
  alongside : Alongside text other
  level : ∃ here there, Leads text here ∧ Leads other there ∧ Level here there

theorem Level.alongside {text other : List Char} (level : Level text other) :
    Alongside text other := by
  cases level with
  | nil => exact .nil
  | cons c later => exact .cons c later

/-- Whether two states of a gap differ only in what a comment was read so far. -/
def Gap.Alike : Gap → Gap → Prop
  | .blank, .blank | .line _ _, .line _ _ | .block _ _, .block _ _ => True
  | _, _ => False

/-- What comes after a gap hangs on neither its place nor the tokens before it. -/
theorem skipGapFrom_leads {gap : Gap} {p : Nat} {tokens : List Token} {text : List Char}
    {d : Cursor} (skipped : skipGapFrom gap p tokens text = some d) (other : Gap)
    (alike : gap.Alike other) (q : Nat) (more : List Token) :
    ∃ e, skipGapFrom other q more text = some e ∧ e.rest = d.rest := by
  fun_induction skipGapFrom gap p tokens text generalizing other q more with
  | case1 p tokens rest ih =>
    cases other <;> try cases alike
    obtain ⟨e, run, same⟩ := ih skipped (.line q ['#']) trivial (q + 1) more
    exact ⟨e, by rw [skipGapFrom, run], same⟩
  | case2 p tokens rest ih =>
    cases other <;> try cases alike
    obtain ⟨e, run, same⟩ := ih skipped (.line q ['/', '/']) trivial (q + 2) more
    exact ⟨e, by rw [skipGapFrom, run], same⟩
  | case3 p tokens rest ih =>
    cases other <;> try cases alike
    obtain ⟨e, run, same⟩ := ih skipped (.block q ['*', '/']) trivial (q + 2) more
    exact ⟨e, by rw [skipGapFrom, run], same⟩
  | case4 p tokens c rest hash slashes star blank ih =>
    cases other <;> try cases alike
    obtain ⟨e, run, same⟩ := ih skipped .blank trivial (q + 1) more
    exact ⟨e, by rw [skipGapFrom_blank blank, run], same⟩
  | case5 p tokens c rest hash slashes star blank =>
    cases other <;> try cases alike
    cases skipped
    refine ⟨⟨q, c :: rest, more⟩, ?_, rfl⟩
    rw [skipGapFrom.eq_def]
    split <;> simp_all
  | case6 =>
    cases other <;> try cases alike
    cases skipped
    exact ⟨_, rfl, rfl⟩
  | case7 =>
    cases other <;> try cases alike
    cases skipped
    exact ⟨_, rfl, rfl⟩
  | case8 start read p tokens rest ih =>
    cases other with
    | blank | block => cases alike
    | line start' read' =>
      obtain ⟨e, run, same⟩ := ih skipped .blank trivial (q + 1)
        (.comment ⟨start', read'.reverse⟩ :: more)
      exact ⟨e, by rw [skipGapFrom, if_pos rfl, run], same⟩
  | case9 start read p tokens c rest feed ih =>
    cases other with
    | blank | block => cases alike
    | line start' read' =>
      obtain ⟨e, run, same⟩ := ih skipped (.line start' (c :: read')) trivial (q + 1) more
      exact ⟨e, by rw [skipGapFrom, if_neg feed, run], same⟩
  | case10 => cases skipped
  | case11 start read p tokens rest ih =>
    cases other with
    | blank | line => cases alike
    | block start' read' =>
      obtain ⟨e, run, same⟩ := ih skipped .blank trivial (q + 2)
        (.comment ⟨start', ('/' :: '*' :: read').reverse⟩ :: more)
      exact ⟨e, by rw [skipGapFrom, run], same⟩
  | case12 start read p tokens c rest ends ih =>
    cases other with
    | blank | line => cases alike
    | block start' read' =>
      obtain ⟨e, run, same⟩ := ih skipped (.block start' (c :: read')) trivial (q + 1) more
      refine ⟨e, ?_, same⟩
      rw [skipGapFrom, run]
      exact ends

theorem Leads.of_skipGapFrom {p : Nat} {tokens : List Token} {text : List Char} {d : Cursor}
    (skipped : skipGapFrom .blank p tokens text = some d) : Leads text d.rest :=
  fun q more => skipGapFrom_leads skipped .blank trivial q more

theorem Leads.eq {text first second : List Char} (here : Leads text first)
    (there : Leads text second) : first = second := by
  obtain ⟨d, run, rfl⟩ := here 0 []
  obtain ⟨e, run', rfl⟩ := there 0 []
  rw [run] at run'
  rw [Option.some.inj run']

theorem skipGapFrom_solid {gap : Gap} {p : Nat} {tokens : List Token} {text : List Char}
    {d : Cursor} (skipped : skipGapFrom gap p tokens text = some d) : Solid d.rest := by
  fun_induction skipGapFrom gap p tokens text with
  | case5 p tokens c rest hash slashes star blank =>
    cases skipped
    intro q more
    rw [skipGapFrom.eq_def]
    split <;> simp_all
  | case6 | case7 =>
    cases skipped
    exact solid_nil
  | case10 => cases skipped
  | case1 _ _ _ ih | case2 _ _ _ ih | case3 _ _ _ ih => exact ih skipped
  | case4 _ _ _ _ _ _ _ _ ih => exact ih skipped
  | case8 _ _ _ _ _ ih | case11 _ _ _ _ _ ih => exact ih skipped
  | case9 _ _ _ _ _ _ _ ih | case12 _ _ _ _ _ _ _ ih => exact ih skipped

variable {text other : List Char}

theorem blank_clear {blanks : List Char} (blank : ∀ c ∈ blanks, isBlank c = true) :
    ∀ c ∈ blanks, c ≠ '#' ∧ c ≠ '/' := by
  intro c member
  have space := blank c member
  constructor <;> rintro rfl <;> cases space

/-- What neither a blank nor a comment begins with. -/
theorem solid_cons_iff {c : Char} {rest : List Char} :
    Solid (c :: rest) ↔
      isBlank c = false ∧ c ≠ '#' ∧ (c = '/' → rest.head? ≠ some '/' ∧ rest.head? ≠ some '*') := by
  constructor
  · intro solid
    have here := solid 0 []
    have stays (gap : Gap) (p : Nat) {after : List Char}
        (same : skipGapFrom .blank 0 [] (c :: rest) = skipGapFrom gap (p + 1) [] after) :
        False := by
      rw [here] at same
      exact absurd (skipGapFrom_advances _ _ _ _ same.symm).position (Nat.not_succ_le_zero p)
    refine ⟨?_, ?_, ?_⟩
    · exact Bool.eq_false_iff.mpr fun blank => stays .blank 0 (skipGapFrom_blank blank 0 [] rest)
    · rintro rfl
      exact stays (.line 0 ['#']) 0 rfl
    · rintro rfl
      constructor
      · intro slash
        obtain ⟨after, rfl⟩ := List.head?_eq_some_iff.mp slash
        exact stays (.line 0 ['/', '/']) 1 rfl
      · intro star
        obtain ⟨after, rfl⟩ := List.head?_eq_some_iff.mp star
        exact stays (.block 0 ['*', '/']) 1 rfl
  · rintro ⟨blank, hash, slash⟩ p tokens
    rw [skipGapFrom.eq_def]
    split <;> simp_all

theorem OpensComment.not_solid (opens : OpensComment text) : ¬ Solid text := by
  obtain ⟨sign, member, rest, rfl⟩ := opens
  intro solid
  simp only [List.mem_cons, List.not_mem_nil, or_false] at member
  rcases member with rfl | rfl | rfl
  · exact (solid_cons_iff.mp solid).2.1 rfl
  · exact ((solid_cons_iff.mp solid).2.2 rfl).1 rfl
  · exact ((solid_cons_iff.mp solid).2.2 rfl).2 rfl

theorem Level.solid (level : Level text other) (solid : Solid text) : Solid other := by
  cases level with
  | nil => exact solid_nil
  | @cons c text other later =>
    obtain ⟨blank, hash, slash⟩ := solid_cons_iff.mp solid
    refine solid_cons_iff.mpr ⟨blank, hash, fun same => ?_⟩
    cases later with
    | nil => simp
    | cons d later => exact slash same
    | comment => simp

namespace Alongside

theorem refl (text : List Char) : Alongside text text := by
  induction text with
  | nil => exact .nil
  | cons c text ih => exact .cons c ih

/-- Both texts begin with the same sign, unless it may begin a comment. -/
theorem of_cons {c : Char} (alongside : Alongside (c :: text) other)
    (plain : c ≠ '#' ∧ c ≠ '/') : ∃ rest, other = c :: rest ∧ Alongside text rest := by
  cases alongside with
  | cons c later => exact ⟨_, rfl, later⟩
  | comment _ _ opens => exact (opens.elim plain.1 plain.2).elim

theorem to_cons {c : Char} (alongside : Alongside text (c :: other)) (solid : c ≠ ' ') :
    ∃ rest, text = c :: rest ∧ Alongside rest other := by
  cases alongside with
  | cons c later => exact ⟨_, rfl, later⟩
  | comment => exact absurd rfl solid

theorem of_append {piece : List Char} (alongside : Alongside (piece ++ text) other)
    (plain : ∀ c ∈ piece, c ≠ '#' ∧ c ≠ '/') :
    ∃ rest, other = piece ++ rest ∧ Alongside text rest := by
  induction piece generalizing other with
  | nil => exact ⟨other, rfl, alongside⟩
  | cons c piece ih =>
    obtain ⟨here, there⟩ := List.forall_mem_cons.mp plain
    obtain ⟨later, rfl, along⟩ := alongside.of_cons here
    obtain ⟨rest, rfl, after⟩ := ih along there
    exact ⟨rest, rfl, after⟩

theorem to_append {piece : List Char} (alongside : Alongside text (piece ++ other))
    (solid : ' ' ∉ piece) : ∃ rest, text = piece ++ rest ∧ Alongside rest other := by
  induction piece generalizing text with
  | nil => exact ⟨text, rfl, alongside⟩
  | cons c piece ih =>
    rw [List.mem_cons, not_or] at solid
    obtain ⟨later, rfl, along⟩ := alongside.to_cons (Ne.symm solid.1)
    obtain ⟨rest, rfl, after⟩ := ih along solid.2
    exact ⟨rest, rfl, after⟩

theorem append (piece : List Char) (later : Alongside text other) :
    Alongside (piece ++ text) (piece ++ other) := by
  induction piece with
  | nil => exact later
  | cons c piece ih => exact .cons c ih

theorem takeWhile_eq {kind : Char → Bool}
    (ends : kind '#' = false ∧ kind '/' = false ∧ kind ' ' = false)
    (alongside : Alongside text other) : text.takeWhile kind = other.takeWhile kind := by
  induction alongside with
  | nil => rfl
  | cons c later ih =>
    rw [List.takeWhile_cons, List.takeWhile_cons, ih]
  | comment text other opens =>
    obtain ⟨hash, slash, space⟩ := ends
    rcases opens with rfl | rfl <;> simp [hash, slash, space]

theorem drop_of_take {count : Nat} (alongside : Alongside text other)
    (same : text.take count = other.take count) :
    Alongside (text.drop count) (other.drop count) := by
  induction alongside generalizing count with
  | nil => simpa using nil
  | cons c later ih =>
    cases count with
    | zero => exact .cons c later
    | succ count => exact ih (List.cons.inj same).2
  | comment text other opens =>
    cases count with
    | zero => exact .comment text other opens
    | succ count =>
      rcases opens with rfl | rfl <;> cases same

theorem drop_takeWhile {kind : Char → Bool}
    (ends : kind '#' = false ∧ kind '/' = false ∧ kind ' ' = false)
    (alongside : Alongside text other) :
    Alongside (text.drop (text.takeWhile kind).length)
      (other.drop (text.takeWhile kind).length) := by
  apply alongside.drop_of_take
  have same := alongside.takeWhile_eq ends
  have taken (text : List Char) : text.takeWhile kind = text.take (text.takeWhile kind).length :=
    List.prefix_iff_eq_take.mp (List.takeWhile_prefix kind)
  rw [← taken text, same]
  exact taken other

theorem isPrefixOf_eq {sign : List Char} (plain : ∀ c ∈ sign, c ≠ '#' ∧ c ≠ '/' ∧ c ≠ ' ')
    (alongside : Alongside text other) : sign.isPrefixOf text = sign.isPrefixOf other := by
  induction alongside generalizing sign with
  | nil => rfl
  | cons c later ih =>
    cases sign with
    | nil => rfl
    | cons d sign =>
      rw [List.isPrefixOf_cons_cons, List.isPrefixOf_cons_cons,
        ih fun e member => plain e (List.mem_cons_of_mem d member)]
  | comment text other opens =>
    cases sign with
    | nil => rfl
    | cons d sign =>
      obtain ⟨hash, slash, space⟩ := plain d List.mem_cons_self
      rw [List.isPrefixOf_cons_cons, List.isPrefixOf_cons_cons]
      rw [beq_false_of_ne space]
      rcases opens with rfl | rfl
      · rw [beq_false_of_ne hash, Bool.false_and, Bool.false_and]
      · rw [beq_false_of_ne slash, Bool.false_and, Bool.false_and]

theorem digitsOf?_eq (alongside : Alongside text other) : digitsOf? text = digitsOf? other := by
  rw [digitsOf?, digitsOf?, alongside.takeWhile_eq (by decide)]

theorem powerOf_eq (alongside : Alongside text other) : powerOf text = powerOf other := by
  cases alongside with
  | nil => rfl
  | @cons mark text other later =>
    cases later with
    | nil => rfl
    | @cons sign text other later =>
      by_cases plus : sign = '+'
      · subst plus
        simp [powerOf, later.digitsOf?_eq]
      · by_cases minus : sign = '-'
        · subst minus
          simp [powerOf, later.digitsOf?_eq]
        · simp [powerOf, plus, minus, (cons sign later).digitsOf?_eq]
    | comment text other opens => rcases opens with rfl | rfl <;> simp [powerOf, digitsOf?]
  | comment text other opens => rcases opens with rfl | rfl <;> rfl

theorem digits_drop {digits : List Char} (alongside : Alongside text other)
    (found : digitsOf? text = some digits) :
    Alongside (text.drop digits.length) (other.drop digits.length) := by
  have taken : text.takeWhile Char.isDigit = digits := by
    unfold digitsOf? at found
    split at found
    · cases found
    · exact Option.some.inj found
  rw [← taken]
  exact alongside.drop_takeWhile (by decide)

theorem fractionOf_eq (alongside : Alongside text other) : fractionOf text = fractionOf other := by
  cases alongside with
  | nil => rfl
  | @cons point text other later =>
    by_cases same : point = '.'
    · subst same
      simp only [fractionOf, ← later.digitsOf?_eq]
      split
      · rename_i digits found
        rw [(later.digits_drop found).powerOf_eq]
      · rfl
    · simp [fractionOf, same]
  | comment text other opens => rcases opens with rfl | rfl <;> rfl

/-- Both texts begin with the same number, if with any. -/
theorem number?_eq (alongside : Alongside text other) : number? text = number? other := by
  have decimal : (do
        let whole ← digitsOf? text
        return whole ++ fractionOf (text.drop whole.length)) = (do
        let whole ← digitsOf? other
        return whole ++ fractionOf (other.drop whole.length)) := by
    rw [← alongside.digitsOf?_eq]
    cases found : digitsOf? text with
    | none => rfl
    | some whole =>
      show some _ = some _
      rw [(alongside.digits_drop found).fractionOf_eq]
  unfold number?
  split
  · rename_i rest
    obtain ⟨_, rfl, next⟩ := alongside.of_cons (by decide)
    obtain ⟨_, rfl, later⟩ := next.of_cons (by decide)
    rw [later.takeWhile_eq (by decide)]
    rfl
  · rename_i hexadecimal
    split
    · obtain ⟨_, rfl, later⟩ := alongside.to_cons (by decide)
      obtain ⟨_, rfl, later⟩ := later.to_cons (by decide)
      exact absurd rfl (hexadecimal _)
    · exact decimal

theorem nameTail_eq (alongside : Alongside text other) :
    (nameTail text).1 = (nameTail other).1 := by
  fun_induction nameTail text generalizing other with
  | case1 rest tail after ends ih =>
    obtain ⟨_, rfl, next⟩ := alongside.of_cons (by decide)
    obtain ⟨_, rfl, later⟩ := next.of_cons (by decide)
    have same := ih later
    rw [ends] at same
    simp only [nameTail, ← same]
  | case2 c rest colons continues tail after ends ih =>
    have plain : c ≠ '#' ∧ c ≠ '/' := by
      constructor <;> rintro rfl <;> exact absurd continues (by decide)
    obtain ⟨other, rfl, later⟩ := alongside.of_cons plain
    have single (more : List Char) (colon : c = ':') (shape : other = ':' :: more) : False := by
      subst shape
      obtain ⟨_, rfl, later⟩ := later.to_cons (by decide)
      exact colons _ colon rfl
    have same := ih later
    rw [ends] at same
    simp only [nameTail.eq_2 _ _ single, if_pos continues, ← same]
  | case3 c rest colons continues =>
    cases alongside with
    | @cons _ _ other later =>
      have single (more : List Char) (colon : c = ':') (shape : other = ':' :: more) : False := by
        subst shape
        obtain ⟨_, rfl, later⟩ := later.to_cons (by decide)
        exact colons _ colon rfl
      rw [nameTail.eq_2 _ _ single, if_neg continues]
    | comment => rfl
  | case4 =>
    cases alongside with
    | nil => rfl

theorem name?_eq (alongside : Alongside text other) : name? text = name? other := by
  cases alongside with
  | nil => rfl
  | cons c later => rw [name?, name?, later.nameTail_eq]
  | comment text other opens => rcases opens with rfl | rfl <;> rfl

/-- Both texts begin with so many hexadecimal digits, or neither does. -/
theorem hexDigits_iff (alongside : Alongside text other) (count : Nat) :
    ((text.take count).filter isHexDigit).length = count ↔
      ((other.take count).filter isHexDigit).length = count := by
  have short {c : Char} (rest : List Char) (count : Nat) (hex : isHexDigit c = false) :
      (((c :: rest).take (count + 1)).filter isHexDigit).length ≠ count + 1 := by
    rw [List.take_succ_cons, List.filter_cons_of_neg (by simp [hex])]
    have most := List.length_filter_le isHexDigit (rest.take count)
    have least := List.length_take_le count rest
    omega
  induction alongside generalizing count with
  | nil => rfl
  | @cons c text other later ih =>
    cases count with
    | zero => simp
    | succ count =>
      cases hex : isHexDigit c with
      | true => simpa [hex] using ih count
      | false => exact iff_of_false (short text count hex) (short other count hex)
  | comment text other opens =>
    cases count with
    | zero => simp
    | succ count =>
      rcases opens with rfl | rfl <;>
        exact iff_of_false (short text count (by decide)) (short other count (by decide))

theorem escapeLength?_eq (alongside : Alongside text other) :
    escapeLength? text = escapeLength? other := by
  cases alongside with
  | nil => rfl
  | @cons c text other later =>
    by_cases four : c = 'u'
    · subst four
      simp only [escapeLength?, later.hexDigits_iff 4]
    · by_cases eight : c = 'U'
      · subst eight
        simp only [escapeLength?, later.hexDigits_iff 8]
      · unfold escapeLength?
        split <;> simp_all
  | comment text other opens => rcases opens with rfl | rfl <;> rfl

end Alongside

theorem Level.isPrefixOf_eq {sign : List Char}
    (plain : ∀ c ∈ sign.tail, c ≠ '#' ∧ c ≠ '/' ∧ c ≠ ' ') (level : Level text other) :
    sign.isPrefixOf text = sign.isPrefixOf other := by
  cases level with
  | nil => rfl
  | cons c later =>
    cases sign with
    | nil => rfl
    | cons d sign =>
      have same : sign.isPrefixOf _ = sign.isPrefixOf _ := later.isPrefixOf_eq plain
      rw [List.isPrefixOf_cons_cons, List.isPrefixOf_cons_cons, same]

theorem Spacing.alongside {p : Nat} {text other rest left : List Char} {tokens : List Token}
    (spacing : Spacing p text tokens other) (after : Alongside rest left) :
    Alongside (text ++ rest) (other ++ left) := by
  induction spacing generalizing rest left with
  | nil => exact after
  | keep c later ih => exact .cons c (ih after)
  | comment opens later ih =>
    obtain ⟨c, inside, shape, sign⟩ := opens.head
    rw [shape]
    exact .comment _ _ sign
  | heredoc within later first second =>
    rw [List.append_assoc, List.append_assoc]
    exact first (second after)
  | token plain later ih => exact ih after

/-- Where no comment begins, a text begins as it does with a space in place of every comment. -/
theorem Spacing.level {p : Nat} {text other rest left : List Char} {tokens : List Token}
    (spacing : Spacing p text tokens other) (solid : Solid (text ++ rest)) (filled : other ≠ [])
    (after : Alongside rest left) : Level (text ++ rest) (other ++ left) := by
  induction spacing generalizing rest left with
  | nil => exact absurd rfl filled
  | keep c later ih => exact .cons c (later.alongside after)
  | @comment slice text other tokens opens later ih =>
    rw [List.append_assoc] at solid
    exact absurd solid (opens.append _).not_solid
  | @heredoc slice text body other inside tokens within later first second =>
    rw [List.append_assoc] at solid ⊢
    rw [List.append_assoc]
    cases body with
    | nil =>
      have empty := within.alongside .nil
      rw [List.append_nil, List.append_nil] at empty
      generalize slice.text = start at empty solid
      cases empty
      exact second solid filled after
    | cons c body => exact first solid (by simp) (later.alongside after)
  | token plain later ih => exact ih solid filled after

/-- The length of an operator by its first sign and what comes after it. -/
theorem operatorLength?_cons (c : Char) (rest : List Char) :
    Reader.operatorLength? (c :: rest) =
      if (['=', '!', '<', '>'].contains c && ['='].isPrefixOf rest) ||
          ((c == '&' || c == '|') && [c].isPrefixOf rest) then some 2
      else if c == '<' && ['<'].isPrefixOf rest then
        if ['<', '<'].isPrefixOf rest then some 1 else none
      else if ['*', '/', '%', '+', '-', '<', '>'].contains c then some 1
      else none := by
  unfold Reader.operatorLength?
  split
  case h_8 =>
    rename_i after third same
    obtain ⟨rfl, rfl⟩ := List.cons.inj same
    cases after with
    | nil => rfl
    | cons d after =>
      have other : '<' ≠ d := by
        rintro rfl
        exact third _ rfl
      simp [other]
  case h_14 =>
    rename_i equal _ less same
    obtain ⟨rfl, rfl⟩ := List.cons.inj same
    cases rest with
    | nil => rfl
    | cons d rest =>
      have first : '=' ≠ d := by
        rintro rfl
        exact equal _ rfl
      have second : '<' ≠ d := by
        rintro rfl
        exact less _ rfl
      simp [first, second]
  case h_15 =>
    rename_i equal same
    obtain ⟨rfl, rfl⟩ := List.cons.inj same
    cases rest with
    | nil => rfl
    | cons d rest =>
      have other : '=' ≠ d := by
        rintro rfl
        exact equal _ rfl
      simp [other]
  case h_16 =>
    cases rest with
    | nil => simp_all
    | cons d rest =>
      simp_all
      grind
  all_goals simp_all

theorem Level.operatorLength?_eq (level : Level text other) :
    Reader.operatorLength? text = Reader.operatorLength? other := by
  cases level with
  | nil => rfl
  | cons c later =>
    have starts (sign : List Char) (plain : ∀ d ∈ sign, d ≠ '#' ∧ d ≠ '/' ∧ d ≠ ' ') :=
      later.isPrefixOf_eq plain
    rw [operatorLength?_cons, operatorLength?_cons, starts ['='] (by simp),
      starts ['<'] (by simp), starts ['<', '<'] (by simp)]
    by_cases pair : c = '&' ∨ c = '|'
    · rw [starts [c] (by rcases pair with rfl | rfl <;> simp)]
    · have other : (c == '&' || c == '|') = false := by simpa using pair
      rw [other, Bool.false_and, Bool.false_and]

end TerraDoc.Hcl
