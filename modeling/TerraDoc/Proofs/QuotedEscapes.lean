import TerraDoc.Proofs.QuotedSpelling

namespace TerraDoc.Hcl.Quoted

/-- The units between quotes: a character that is no backslash, an escape by a letter, or the code
of a character in four or eight digits. With `lax` a plus sign may stand before one digit less. -/
inductive EscapeUnit (lax : Bool) : List Char → Prop where
  | plain {c : Char} (other : c ≠ '\\') : EscapeUnit lax [c]
  | short {letter : Char} (known : letter ∈ ['n', 'r', 't', '"', '\\']) :
      EscapeUnit lax ['\\', letter]
  | code {digits : List Char} {c : Char} (four : digits.length = 4)
      (spells : HexSpells digits c.toNat) : EscapeUnit lax ('\\' :: 'u' :: digits)
  | longCode {digits : List Char} {c : Char} (eight : digits.length = 8)
      (spells : HexSpells digits c.toNat) : EscapeUnit lax ('\\' :: 'U' :: digits)
  | signedCode {digits : List Char} {c : Char} (allowed : lax = true) (three : digits.length = 3)
      (spells : HexSpells digits c.toNat) : EscapeUnit lax ('\\' :: 'u' :: '+' :: digits)
  | signedLongCode {digits : List Char} {c : Char} (allowed : lax = true)
      (seven : digits.length = 7) (spells : HexSpells digits c.toNat) :
      EscapeUnit lax ('\\' :: 'U' :: '+' :: digits)

/-- A text made of units. -/
inductive WellFormed (lax : Bool) : List Char → Prop where
  | nil : WellFormed lax []
  | unit {unit rest : List Char} (first : EscapeUnit lax unit) (later : WellFormed lax rest) :
      WellFormed lax (unit ++ rest)

/-- A plus sign stands where a code in the text begins. -/
def SignedCode (text : List Char) : Prop :=
  ∃ before letter after, WellFormed false before ∧ letter ∈ ['u', 'U'] ∧
    text = before ++ '\\' :: letter :: '+' :: after

theorem toNat_ofNat {code : Nat} (valid : code.isValidChar) : (Char.ofNat code).toNat = code := by
  rw [Char.ofNat, dif_pos valid]
  rfl

theorem scalar?_eq_some_iff {code : Nat} {c : Char} : scalar? code = some c ↔ c.toNat = code := by
  unfold scalar?
  split
  · rename_i valid
    rw [Option.some.injEq]
    constructor
    · rintro rfl
      exact toNat_ofNat valid
    · rintro rfl
      exact Char.ofNat_toNat c
  · rename_i invalid
    simp only [reduceCtorEq, false_iff]
    rintro rfl
    exact invalid c.valid

theorem digitsNumber?_scalar?_iff {digits : List Char} {c : Char} (some : digits ≠ []) :
    (digitsNumber? digits).bind scalar? = c ↔ HexSpells digits c.toNat := by
  simp only [Option.bind_eq_some_iff, digitsNumber?_eq_some_iff some, scalar?_eq_some_iff]
  simp

/-- The digits that stand for a character: those of its code, the first perhaps a plus sign. -/
theorem coded?_eq_some_iff {digits : List Char} {c : Char} (long : 2 ≤ digits.length) :
    coded? digits = some c ↔ HexSpells digits c.toNat ∨
      ∃ rest, digits = '+' :: rest ∧ HexSpells rest c.toNat := by
  by_cases signed : digits.head? = some '+'
  · obtain ⟨rest, rfl⟩ : ∃ rest, digits = '+' :: rest := by
      cases digits with
      | nil => cases signed
      | cons first rest => exact ⟨rest, congrArg (· :: rest) (Option.some.inj signed)⟩
    have more : rest ≠ [] := by
      rintro rfl
      simp at long
    have other : ¬ HexSpells ('+' :: rest) c.toNat := fun spells => spells.unsigned rfl
    rw [coded?, hexNumber?_plus, digitsNumber?_scalar?_iff more, or_iff_right other]
    simp
  · have plain : ¬ ∃ rest, digits = '+' :: rest ∧ HexSpells rest c.toNat := by
      rintro ⟨rest, rfl, -⟩
      exact signed rfl
    have more : digits ≠ [] := by
      rintro rfl
      simp at long
    rw [coded?, hexNumber?_of_ne signed, digitsNumber?_scalar?_iff more, or_iff_left plain]

theorem EscapeUnit.of_coded {digits : List Char} {c : Char} (four : digits.length = 4)
    (coded : coded? digits = some c) : EscapeUnit true ('\\' :: 'u' :: digits) := by
  obtain spells | ⟨rest, rfl, spells⟩ := (coded?_eq_some_iff (by omega)).mp coded
  · exact .code four spells
  · exact .signedCode rfl (Nat.succ.inj four) spells

theorem EscapeUnit.of_longCoded {digits : List Char} {c : Char} (eight : digits.length = 8)
    (coded : coded? digits = some c) : EscapeUnit true ('\\' :: 'U' :: digits) := by
  obtain spells | ⟨rest, rfl, spells⟩ := (coded?_eq_some_iff (by omega)).mp coded
  · exact .longCode eight spells
  · exact .signedLongCode rfl (Nat.succ.inj eight) spells

/-- What is decoded is made of units. -/
theorem wellFormed_of_unescape {text decoded : List Char} (same : unescape text = .ok decoded) :
    WellFormed true text := by
  fun_induction unescape text generalizing decoded with
  | case1 => exact .nil
  | case2 a b c d rest scalar coded ih =>
    obtain ⟨later, inner, -⟩ := Except.map_eq_ok.mp same
    exact .unit (.of_coded rfl coded) (ih inner)
  | case4 a b c d e f g h rest scalar coded ih =>
    obtain ⟨later, inner, -⟩ := Except.map_eq_ok.mp same
    exact .unit (.of_longCoded rfl coded) (ih inner)
  | case6 letter rest _ _ scalar short ih =>
    obtain ⟨later, inner, -⟩ := Except.map_eq_ok.mp same
    exact .unit (.short (mem_of_short? short)) (ih inner)
  | case8 rest ih | case9 rest ih =>
    obtain ⟨later, inner, -⟩ := Except.map_eq_ok.mp same
    have brace : WellFormed true ('{' :: rest) := .unit (.plain (by decide)) (ih inner)
    exact .unit (.plain (by decide)) (.unit (.plain (by decide)) brace)
  | case11 c rest _ _ _ _ _ other ih =>
    obtain ⟨later, inner, -⟩ := Except.map_eq_ok.mp same
    exact .unit (.plain other) (ih inner)
  | case3 | case5 | case7 | case10 => cases same

theorem unescape_plain_map {c : Char} (other : c ≠ '\\') (rest : List Char) :
    ∃ f, unescape (c :: rest) = f <$> unescape rest := by
  by_cases doubled : isTemplateSign c = true ∧ rest.take 2 = [c, '{']
  · obtain ⟨sign, template⟩ := doubled
    obtain ⟨more, rfl⟩ : ∃ more, rest = c :: '{' :: more := by
      refine ⟨rest.drop 2, ?_⟩
      rw [← List.take_append_drop 2 rest, template]
      simp
    have brace : '{' ≠ c := by
      rintro rfl
      cases sign
    have single : unescape (c :: '{' :: more) = (c :: ·) <$> unescape ('{' :: more) :=
      unescape_plain other fun _ template => brace (List.cons.inj template).1
    exact ⟨id, by rw [unescape_doubled sign, ← single, id_map]⟩
  · exact ⟨_, unescape_plain other fun sign template => doubled ⟨sign, template⟩⟩

theorem unescape_unit_ok {unit rest : List Char} {f : List Char → List Char}
    (first : unescape (unit ++ rest) = f <$> unescape rest)
    (later : ∃ decoded, unescape rest = .ok decoded) :
    ∃ decoded, unescape (unit ++ rest) = .ok decoded := by
  obtain ⟨decoded, later⟩ := later
  exact ⟨f decoded, by rw [first, later]; rfl⟩

/-- What is made of units is decoded. -/
theorem WellFormed.unescape_ok {lax : Bool} {text : List Char} (formed : WellFormed lax text) :
    ∃ decoded, unescape text = .ok decoded := by
  induction formed with
  | nil => exact ⟨[], rfl⟩
  | @unit unit rest first _ ih =>
    cases first with
    | plain other =>
      obtain ⟨f, first⟩ := unescape_plain_map other rest
      exact unescape_unit_ok first ih
    | short known =>
      obtain ⟨c, short⟩ := short?_of_mem known
      exact unescape_unit_ok (unescape_letter short rest) ih
    | code four spells =>
      have coded := (coded?_eq_some_iff (by omega)).mpr (.inl spells)
      exact unescape_unit_ok (unescape_code four coded rest) ih
    | longCode eight spells =>
      have coded := (coded?_eq_some_iff (by omega)).mpr (.inl spells)
      exact unescape_unit_ok (unescape_longCode eight coded rest) ih
    | @signedCode digits c _ three spells =>
      have four : ('+' :: digits).length = 4 := congrArg Nat.succ three
      have coded := (coded?_eq_some_iff (by omega)).mpr (.inr ⟨digits, rfl, spells⟩)
      exact unescape_unit_ok (unescape_code four coded rest) ih
    | @signedLongCode digits c _ seven spells =>
      have eight : ('+' :: digits).length = 8 := congrArg Nat.succ seven
      have coded := (coded?_eq_some_iff (by omega)).mpr (.inr ⟨digits, rfl, spells⟩)
      exact unescape_unit_ok (unescape_longCode eight coded rest) ih

theorem inner?_eq_some_iff {text inner : List Char} :
    inner? text = some inner ↔ text = '"' :: (inner ++ ['"']) := by
  constructor
  · intro found
    unfold inner? at found
    split at found
    · rename_i rest
      split at found
      · rename_i reversed same
        cases found
        rw [← List.reverse_reverse rest, same, List.reverse_cons]
      · cases found
    · cases found
  · rintro rfl
    simp [inner?]

theorem error_of_decode {raw : List Char} {cause : LiteralError}
    (fails : decode raw = .error cause) :
    cause ∈ [.notQuoted (String.ofList raw), .escape (String.ofList raw),
      .unicodeEscape (String.ofList raw)] := by
  unfold decode at fails
  split at fails
  · cases fails
    exact List.mem_cons_self
  · split at fails <;> cases fails <;> simp

theorem decode_ok_iff {raw : List Char} :
    (∃ text, decode raw = .ok text) ↔
      ∃ inner, Text.trim raw = '"' :: (inner ++ ['"']) ∧ WellFormed true inner := by
  unfold decode
  constructor
  · rintro ⟨text, same⟩
    split at same
    · cases same
    · rename_i inner between
      split at same
      · rename_i decoded unescaped
        exact ⟨inner, inner?_eq_some_iff.mp between, wellFormed_of_unescape unescaped⟩
      all_goals cases same
  · rintro ⟨inner, between, formed⟩
    obtain ⟨decoded, unescaped⟩ := formed.unescape_ok
    exact ⟨decoded, by rw [inner?_eq_some_iff.mpr between]; simp only [unescaped]⟩

theorem EscapeUnit.lax {unit : List Char} (strict : EscapeUnit false unit) :
    EscapeUnit true unit := by
  cases strict with
  | plain other => exact .plain other
  | short known => exact .short known
  | code four spells => exact .code four spells
  | longCode eight spells => exact .longCode eight spells
  | signedCode allowed | signedLongCode allowed => cases allowed

theorem WellFormed.lax {text : List Char} (formed : WellFormed false text) :
    WellFormed true text := by
  induction formed with
  | nil => exact .nil
  | unit first _ ih => exact .unit first.lax ih

theorem WellFormed.strict {text : List Char} (formed : WellFormed true text)
    (unsigned : ¬ SignedCode text) : WellFormed false text := by
  induction formed with
  | nil => exact .nil
  | @unit unit rest first _ ih =>
    have later (strict : EscapeUnit false unit) : WellFormed false (unit ++ rest) := by
      refine .unit strict (ih ?_)
      rintro ⟨before, letter, after, formed, known, rfl⟩
      exact unsigned ⟨unit ++ before, letter, after, .unit strict formed, known, by simp⟩
    cases first with
    | plain other => exact later (.plain other)
    | short known => exact later (.short known)
    | code four spells => exact later (.code four spells)
    | longCode eight spells => exact later (.longCode eight spells)
    | signedCode | signedLongCode =>
      exact absurd ⟨[], _, _, .nil, by simp, rfl⟩ unsigned

/-- Without signed codes what is decoded is exactly what the grammar allows, and everything else is
an error. -/
theorem decoded_unless_signed {raw : List Char}
    (unsigned : ∀ inner, Text.trim raw = '"' :: (inner ++ ['"']) → ¬ SignedCode inner) :
    ((∃ text, decode raw = .ok text) ↔
      ∃ inner, Text.trim raw = '"' :: (inner ++ ['"']) ∧ WellFormed false inner) ∧
    ((∃ cause ∈ [LiteralError.notQuoted (String.ofList raw), .escape (String.ofList raw),
        .unicodeEscape (String.ofList raw)], decode raw = .error cause) ↔
      ¬ ∃ inner, Text.trim raw = '"' :: (inner ++ ['"']) ∧ WellFormed false inner) := by
  have exact' : (∃ text, decode raw = .ok text) ↔
      ∃ inner, Text.trim raw = '"' :: (inner ++ ['"']) ∧ WellFormed false inner := by
    rw [decode_ok_iff]
    refine exists_congr fun inner => and_congr_right fun between => ?_
    exact ⟨fun formed => formed.strict (unsigned inner between), WellFormed.lax⟩
  refine ⟨exact', ?_⟩
  rw [← exact']
  constructor
  · rintro ⟨cause, -, fails⟩ ⟨text, same⟩
    rw [fails] at same
    cases same
  · intro none
    obtain ⟨cause, fails⟩ := Except.error_of_not_ok (not_exists.mp none)
    exact ⟨cause, error_of_decode fails, fails⟩

/-- A code with a sign is none of the grammar, and yet it is decoded. -/
theorem signed_code_decoded :
    decode "\"\\u+041\"".toList = .ok ['A'] ∧ ¬ WellFormed false "\\u+041".toList := by
  refine ⟨by decide +kernel, fun formed => ?_⟩
  generalize same : "\\u+041".toList = text at formed
  cases formed with
  | nil => cases same
  | unit first =>
    cases first with
    | plain other => exact other (List.cons.inj same).1.symm
    | short known =>
      obtain ⟨rfl, -⟩ := List.cons.inj (List.cons.inj same).2
      exact absurd known (by decide)
    | longCode => exact absurd (List.cons.inj (List.cons.inj same).2).1 (by decide)
    | @code digits c four spells =>
      have begins := spells.unsigned
      have digits' := (List.cons.inj (List.cons.inj same).2).2
      cases digits with
      | nil => cases four
      | cons first more => exact begins (congrArg some (List.cons.inj digits').1.symm)
    | signedCode allowed | signedLongCode allowed => cases allowed

end TerraDoc.Hcl.Quoted
