import TerraDoc.Proofs.HeredocMirror

namespace TerraDoc.Hcl

/-- Keys and values that are alike. -/
def ElementAlike (first second : Expr × Expr) : Prop :=
  first.1.Alike second.1 ∧ first.2.Alike second.2

namespace Expr

variable {slice slice' : Slice} {items items' : List Expr} {elements elements' : List (Expr × Expr)}

theorem stripped_of_alike (alike : List.Forall₂ Alike items items') :
    strippedItems items = strippedItems items' := by
  rw [strippedItems_eq, strippedItems_eq]
  exact forall₂_map_eq.mp alike

theorem Alike.tuple (alike : List.Forall₂ Alike items items') :
    (Expr.tuple slice items).Alike (.tuple slice' items') := by
  rw [Alike, stripped, stripped, stripped_of_alike alike]

theorem Alike.compound {form : Form} (alike : List.Forall₂ Alike items items') :
    (Expr.compound slice form items).Alike (.compound slice' form items') := by
  rw [Alike, stripped, stripped, stripped_of_alike alike]

theorem Alike.call {function function' : Slice} {expanded expanded' : Bool}
    (named : function.text = function'.text) (alike : List.Forall₂ Alike items items')
    (same : expanded = expanded') :
    (Expr.call slice function items expanded).Alike (.call slice' function' items' expanded') := by
  rw [Alike, stripped, stripped, stripped_of_alike alike, Slice.unplaced, Slice.unplaced, named, same]

theorem Alike.object (alike : List.Forall₂ ElementAlike elements elements') :
    (Expr.object slice elements).Alike (.object slice' elements') := by
  have same : strippedElements elements = strippedElements elements' := by
    induction alike with
    | nil => rfl
    | cons here _ ih =>
      obtain ⟨key, value⟩ := here
      rw [strippedElements, strippedElements, ih, key, value]
  rw [Alike, stripped, stripped, same]

theorem Alike.parens {inner inner' : Expr} (alike : inner.Alike inner') :
    (Expr.parens slice inner).Alike (.parens slice' inner') :=
  congrArg (Expr.parens .none) alike

theorem Alike.unary {op : UnaryOp} {operand operand' : Expr} (alike : operand.Alike operand') :
    (Expr.unary slice op operand).Alike (.unary slice' op operand') :=
  congrArg (Expr.unary .none op) alike

theorem Alike.number (same : slice.text = slice'.text) :
    (Expr.number slice).Alike (.number slice') :=
  congrArg (fun text => Expr.number ⟨0, text⟩) same

theorem Alike.bool {b : Bool} (same : slice.text = slice'.text) :
    (Expr.bool slice b).Alike (.bool slice' b) :=
  congrArg (fun text => Expr.bool ⟨0, text⟩ b) same

theorem Alike.null (same : slice.text = slice'.text) : (Expr.null slice).Alike (.null slice') :=
  congrArg (fun text => Expr.null ⟨0, text⟩) same

theorem Alike.reference (same : slice.text = slice'.text) :
    (Expr.reference slice).Alike (.reference slice') :=
  congrArg (fun text => Expr.reference ⟨0, text⟩) same

end Expr

namespace Mirrors

variable {ι : Type} {room most : Nat} {c : Cursor} {expression other : Reader Expr}

theorem listRest (inner : MirrorsWithin room expression other) (le : most ≤ room) (bound : Nat)
    {bound' : Nat} (enough : most ≤ bound') (close : Char) :
    Mirrors LevelAhead LevelAhead (fun _ => 0) most (Reader.listRest bound expression close)
      (fun _ : ι => Reader.listRest bound' other close) (List.Forall₂ Expr.Alike) c := by
  refine repeated (fun fewer c few => ?_) bound enough
  refine (optional (by simp) (by simp)).bindEq fun more _ _ => ite (fun holds => ?_) fun none => ?_
  · refine ahead.bindSame fun text _ _ => ⟨fun _ b level => by cases level <;> rfl, ?_⟩
    cases text with
    | nil => exact failure
    | cons d text =>
      refine ite (fun _ => pure (fun _ => .none) (Nat.zero_sub _)) fun _ => ?_
      exact (inner _ _ (by omega)).bind fun e _ _ => pure (fun i => .some i.2.2) (by simp)
  · exact pure (fun _ => .none) (Nat.zero_sub _)

theorem forIntro (inner : MirrorsWithin room expression other) (le : most ≤ room) :
    Mirrors LevelAhead LevelAhead (fun _ => 1) most (Reader.forIntro expression)
      (fun _ : ι => Reader.forIntro other) Expr.Alike c := by
  refine (word LevelAhead.sound _).andThen fun _ _ _ => names.andThen fun _ _ _ => ?_
  refine (inner _ _ (by omega)).bind fun collection _ _ => ?_
  exact (symbol LevelAhead.sound (by simp) (by simp)).andThen fun _ _ _ =>
    pure (fun i => i.2.2) (by simp)

theorem forCondition (inner : MirrorsWithin room expression other) (le : most ≤ room) :
    Mirrors LevelAhead LevelAhead (fun _ => 0) most (Reader.forCondition expression)
      (fun _ : ι => Reader.forCondition other) (List.Forall₂ Expr.Alike) c := by
  refine (wordAhead _).bindEq fun found _ _ => ite (fun _ => ?_) fun _ => ?_
  · refine (word LevelAhead.sound _).andThen fun _ _ _ => ?_
    exact (inner _ _ (by omega)).bind fun e _ _ => pure (fun i => .cons i.2.2 .nil) (by simp)
  · exact pure (fun _ => .nil) rfl

/-- A tuple from its bracket on. -/
theorem tuple (inner : MirrorsWithin room expression other) (le : most ≤ room + 1) (bound : Nat)
    {bound' : Nat} (enough : most ≤ bound' + 1) {rest : List Char} (split : c.rest = '[' :: rest) :
    Mirrors Level LevelAhead (fun _ => 1) most (Reader.tuple bound expression)
      (fun _ : ι => Reader.tuple bound' other) Expr.Alike c := by
  have one : ['['].length = 1 := rfl
  refine get.bind ?_
  rintro _ _ ⟨⟩
  refine (takeLevel LevelAhead.sound ['['] split (by simp)).andThen fun _ _ _ => ?_
  refine (wordAhead _).bindEq fun repeats _ _ => ite (fun _ => ?_) fun _ => ?_
  · refine (forIntro inner (by omega)).bind fun collection _ _ => ?_
    refine (inner _ _ (by omega)).bind fun item _ _ => ?_
    refine (forCondition inner (by omega)).bind fun condition _ _ => ?_
    refine (symbol LevelAhead.sound (by simp) (by simp)).andThen fun _ _ _ => ?_
    refine sliceFrom.bind fun slice _ _ => pure (fun i => ?_) (by simp)
    exact .compound (.cons i.1.1.1.2.2 (.cons i.1.1.2.2 i.1.2.2))
  · refine (optional (by simp) (by simp)).bindEq fun ended _ _ => ite (fun _ => ?_) fun _ => ?_
    · exact sliceFrom.bind fun slice _ _ => pure (fun i => .tuple .nil) (by simp)
    · refine (inner _ _ (by omega)).bind fun first _ _ => ?_
      refine (listRest inner (by omega) bound (by omega) ']').bind fun others _ _ => ?_
      refine (symbol LevelAhead.sound (by simp) (by simp)).andThen fun _ _ _ => ?_
      refine sliceFrom.bind fun slice _ _ => pure (fun i => ?_) (by simp)
      exact .tuple (.cons i.1.1.2.2 i.1.2.2)

theorem element (inner : MirrorsWithin room expression other) (le : most ≤ room) :
    Mirrors LevelAhead LevelAhead (fun _ => 1) most (Reader.element expression)
      (fun _ : ι => Reader.element other) ElementAlike c := by
  refine (inner _ _ le).bind fun key _ _ => ?_
  refine (optional (by simp) (by simp)).bindEq fun colon _ _ => ite (fun _ => ?_) fun _ => ?_
  · refine (symbol LevelAhead.sound (by simp) (by simp)).andThen fun _ _ _ => ?_
    exact (inner _ _ (by omega)).bind fun value _ _ =>
      pure (fun i => ⟨i.1.2.2, i.2.2⟩) (by simp)
  · exact (inner _ _ (by omega)).bind fun value _ _ =>
      pure (fun i => ⟨i.1.2.2, i.2.2⟩) (by simp)

theorem elementsRest (inner : MirrorsWithin room expression other) (le : most ≤ room)
    (bound : Nat) {bound' : Nat} (enough : most ≤ bound') :
    Mirrors LevelAhead LevelAhead (fun _ => 0) most (Reader.elementsRest bound expression)
      (fun _ : ι => Reader.elementsRest bound' other) (List.Forall₂ ElementAlike) c := by
  refine repeated (fun fewer c few => ?_) bound enough
  refine (optional (by simp) (by simp)).bindEq fun comma _ _ => ?_
  refine ahead.bindSame fun text _ _ => ⟨fun _ b level => ?_, ?_⟩
  · cases level with
    | nil => rfl
    | cons d => split <;> (split <;> simp_all)
  · split
    · exact pure (fun _ => .none) (Nat.zero_sub _)
    · exact (element inner (by omega)).bind fun e _ _ => pure (fun i => .some i.2.2) (by simp)

/-- An object from its brace on. -/
theorem object (inner : MirrorsWithin room expression other) (le : most ≤ room + 1) (bound : Nat)
    {bound' : Nat} (enough : most ≤ bound' + 1) {rest : List Char} (split : c.rest = '{' :: rest) :
    Mirrors Level LevelAhead (fun _ => 1) most (Reader.object bound expression)
      (fun _ : ι => Reader.object bound' other) Expr.Alike c := by
  have one : ['{'].length = 1 := rfl
  refine get.bind ?_
  rintro _ _ ⟨⟩
  refine (takeLevel LevelAhead.sound ['{'] split (by simp)).andThen fun _ _ _ => ?_
  refine (wordAhead _).bindEq fun repeats _ _ => ite (fun _ => ?_) fun _ => ?_
  · refine (forIntro inner (by omega)).bind fun collection _ _ => ?_
    refine (inner _ _ (by omega)).bind fun key _ _ => ?_
    refine (symbol LevelAhead.sound (by simp) (by simp)).andThen fun _ _ _ => ?_
    refine (inner _ _ (by omega)).bind fun value _ _ => ?_
    refine (optional (by simp) (by simp)).bindEq fun grouped _ _ => ?_
    refine (forCondition inner (by omega)).bind fun condition _ _ => ?_
    refine (symbol LevelAhead.sound (by simp) (by simp)).andThen fun _ _ _ => ?_
    refine sliceFrom.bind fun slice _ _ => pure (fun i => ?_) (by simp)
    exact .compound (.cons i.1.1.1.1.2.2 (.cons i.1.1.1.2.2 (.cons i.1.1.2.2 i.1.2.2)))
  · refine (optional (by simp) (by simp)).bindEq fun ended _ _ => ite (fun _ => ?_) fun _ => ?_
    · exact sliceFrom.bind fun slice _ _ => pure (fun i => .object .nil) (by simp)
    · refine (element inner (by omega)).bind fun first _ _ => ?_
      refine (elementsRest inner (by omega) bound (by omega)).bind fun others _ _ => ?_
      refine (symbol LevelAhead.sound (by simp) (by simp)).andThen fun _ _ _ => ?_
      refine sliceFrom.bind fun slice _ _ => pure (fun i => ?_) (by simp)
      exact .object (.cons i.1.1.2.2 i.1.2.2)

theorem arguments (inner : MirrorsWithin room expression other) (le : most ≤ room) (bound : Nat)
    {bound' : Nat} (enough : most ≤ bound') :
    Mirrors LevelAhead LevelAhead (fun _ => 1) most (Reader.arguments bound expression)
      (fun _ : ι => Reader.arguments bound' other)
      (fun a b => List.Forall₂ Expr.Alike a.1 b.1 ∧ a.2 = b.2) c := by
  refine (symbol LevelAhead.sound (by simp) (by simp)).andThen fun _ _ _ => ?_
  refine (optional (by simp) (by simp)).bindEq fun ended _ _ => ite (fun _ => ?_) fun _ => ?_
  · exact pure (fun i => ⟨.nil, rfl⟩) (by simp)
  · refine (inner _ _ (by omega)).bind fun first _ _ => ?_
    refine (listRest inner (by omega) bound (by omega) ')').bind fun others _ _ => ?_
    refine (optional (by simp) (by simp)).bindEq fun expanded _ _ => ?_
    exact (symbol LevelAhead.sound (by simp) (by simp)).andThen fun _ _ _ =>
      pure (fun i => ⟨.cons i.1.2.2 i.2.2, rfl⟩) (by simp)

end Mirrors

/-- What a name begins, by its text. -/
def Reader.meaning (bound : Nat) (expression : Reader Expr) (start : Cursor) (word : Slice)
    (text : String) : Reader Expr := do
  match text with
  | "true" => return .bool word true
  | "false" => return .bool word false
  | "null" => return .null word
  | _ =>
      match ← ahead with
      | '(' :: _ =>
          let (arguments, expanded) ← arguments bound expression
          return .call (← sliceFrom start) word arguments expanded
      | _ => return .reference word

theorem Reader.named_eq (bound : Nat) (expression : Reader Expr) :
    named bound expression = mark >>= fun start => name >>= fun word =>
      meaning bound expression start word word.string :=
  rfl

namespace Mirrors

variable {ι : Type} {room most : Nat} {c : Cursor} {expression other : Reader Expr}

theorem meaning (inner : MirrorsWithin room expression other) (le : most ≤ room) (bound : Nat)
    {bound' : Nat} (enough : most ≤ bound') {start : Cursor} {start' : ι → Cursor} {word : Slice}
    {word' : ι → Slice} (same : ∀ i, word.text = (word' i).text) (text : String) :
    Mirrors LevelAhead LevelAhead (fun _ => 0) most (Reader.meaning bound expression start word text)
      (fun i => Reader.meaning bound' other (start' i) (word' i) text) Expr.Alike c := by
  unfold Reader.meaning
  split
  · exact pure (fun i => .bool (same i)) rfl
  · exact pure (fun i => .bool (same i)) rfl
  · exact pure (fun i => .null (same i)) rfl
  · refine ahead.bindSame fun text _ _ => ⟨fun _ b level => ?_, ?_⟩
    · cases level with
      | nil => rfl
      | cons d => split <;> (split <;> simp_all)
    · split
      · refine (arguments inner (by omega) bound (by omega)).bind fun (items, expanded) _ _ => ?_
        refine congr (fun i => Reader.sliceFrom (start' i.1) >>= fun slice =>
          Pure.pure (.call slice (word' i.1) i.2.1.1 i.2.1.2)) ?_ fun _ => rfl
        refine sliceFrom.bind fun slice _ _ => pure (fun i => ?_) (Nat.zero_sub _)
        exact .call (same i.1.1) i.1.2.2.1 i.1.2.2.2
      · exact pure (fun i => .reference (same i)) rfl

theorem named (inner : MirrorsWithin room expression other) (le : most ≤ room + 1) (bound : Nat)
    {bound' : Nat} (enough : most ≤ bound' + 1) :
    Mirrors LevelAhead LevelAhead (fun _ => 1) most (Reader.named bound expression)
      (fun _ : ι => Reader.named bound' other) Expr.Alike c := by
  rw [Reader.named_eq, Reader.named_eq]
  refine mark.bind fun start d run => ?_
  refine ((name LevelAhead.sound).level LevelAhead.sound (Reader.mark_run run).2
    fun _ => Nat.le_refl 1).bind fun word _ _ => ?_
  refine congr (fun i => Reader.meaning bound' other i.1.2.1 i.2.1 word.string) ?_ fun i => ?_
  · exact meaning inner (by omega) bound (by omega) (fun i => i.2.2) word.string
  · exact congrArg (Reader.meaning bound' other i.1.2.1 i.2.1) (congrArg String.ofList i.2.2.symm)

end Mirrors

theorem powerOf_prefix (text : List Char) : powerOf text <+: text := by
  rcases Exponent.powerOf_cases text with absent | ⟨mark, sign, digits, rest, power, spelled⟩
  · rw [absent]
    exact List.nil_prefix
  · refine ⟨rest, ?_⟩
    rw [spelled, power.split, List.append_assoc, List.append_assoc]

theorem fractionOf_prefix (text : List Char) : fractionOf text <+: text := by
  rcases Exponent.fractionOf_cases text with ⟨absent, -⟩ | ⟨digits, after, rfl, spelled, -⟩
  · rw [absent]
    exact List.nil_prefix
  · obtain ⟨rest, split⟩ := powerOf_prefix after
    refine ⟨rest, ?_⟩
    rw [spelled, List.append_assoc, List.append_assoc, split]
    rfl

theorem number?_split {text literal : List Char} (found : number? text = some literal) :
    ∃ rest, text = literal ++ rest ∧ literal ≠ [] := by
  rcases Exponent.number?_cases found with
    ⟨digits, rest, rfl, rfl, -⟩ | ⟨whole, rest, rfl, rfl, filled, -⟩
  · exact ⟨rest, rfl, by simp⟩
  · obtain ⟨left, split⟩ := fractionOf_prefix rest
    exact ⟨left, by rw [List.append_assoc, split], by simp [filled]⟩

/-- What an operand is read as, by the text that it begins. -/
def Reader.primaryFrom (bound : Nat) (expression : Reader Expr) (start : Cursor)
    (text : List Char) : Reader Expr := do
  match text with
  | '(' :: _ =>
      take 1
      let inner ← expression
      symbol [')']
      return .parens (← sliceFrom start) inner
  | '[' :: _ => tuple bound expression
  | '{' :: _ => object bound expression
  | '"' :: _ => quoted bound expression
  | '<' :: '<' :: _ => heredoc bound expression
  | text =>
      match number? text with
      | some literal =>
          let slice ← token .number literal.length
          return .number slice
      | none => named bound expression

theorem Reader.primary_eq (bound : Nat) (expression : Reader Expr) :
    primary bound expression = mark >>= fun start =>
      primaryFrom bound expression start start.rest :=
  rfl

theorem Reader.primaryFrom_cons (bound : Nat) (expression : Reader Expr) (start : Cursor) (c : Char)
    (rest : List Char) :
    primaryFrom bound expression start (c :: rest) =
      if c = '(' then do
        take 1
        let inner ← expression
        symbol [')']
        return .parens (← sliceFrom start) inner
      else if c = '[' then tuple bound expression
      else if c = '{' then object bound expression
      else if c = '"' then quoted bound expression
      else if c = '<' ∧ ['<'].isPrefixOf rest then heredoc bound expression
      else match number? (c :: rest) with
        | some literal => do
            let slice ← token .number literal.length
            return .number slice
        | none => named bound expression := by
  unfold primaryFrom
  split
  case h_6 =>
    rename_i third
    cases rest with
    | nil => simp_all
    | cons d rest =>
      simp_all
      exact fun less equal => absurd equal.symm (third less)
  all_goals simp_all

theorem Level.primaryFrom_eq {text other : List Char} (level : Level text other) (bound : Nat)
    (expression : Reader Expr) (start : Cursor) :
    Reader.primaryFrom bound expression start other =
      Reader.primaryFrom bound expression start text := by
  cases level with
  | nil => rfl
  | cons c later =>
    rw [Reader.primaryFrom_cons, Reader.primaryFrom_cons, later.isPrefixOf_eq (by simp),
      (Alongside.cons c later).number?_eq]

namespace Mirrors

variable {ι : Type} {room most : Nat} {c : Cursor} {expression other : Reader Expr}

/-- An operand without operators. -/
theorem primary (inner : MirrorsWithin room expression other) (le : most ≤ room + 1) (bound : Nat)
    {bound' : Nat} (enough : most ≤ bound' + 1) :
    Mirrors LevelAhead LevelAhead (fun _ => 1) most (Reader.primary bound expression)
      (fun _ : ι => Reader.primary bound' other) Expr.Alike c := by
  rw [Reader.primary_eq, Reader.primary_eq]
  refine mark.bind fun start d run => ?_
  obtain ⟨rfl, solid⟩ := Reader.mark_run run
  refine congr (fun i => Reader.primaryFrom bound' other i.2.1 start.rest) ?_ fun i =>
    i.2.2.primaryFrom_eq bound' other i.2.1
  unfold Reader.primaryFrom
  split
  · rename_i rest split
    have one : ['('].length = 1 := rfl
    refine (takeLevel LevelAhead.sound ['('] split (by simp)).andThen fun _ _ _ => ?_
    refine (inner _ _ (by omega)).bind fun e _ _ => ?_
    refine (symbol LevelAhead.sound (by simp) (by simp)).andThen fun _ _ _ => ?_
    exact sliceFrom.bind fun slice _ _ => pure (fun i => .parens i.1.2.2) (by simp)
  · exact tuple inner le bound enough ‹_›
  · exact object inner le bound enough ‹_›
  · exact quoted inner le bound enough ‹_›
  · exact heredoc inner le bound enough ‹_›
  · split
    · rename_i literal found
      obtain ⟨rest, whole, filled⟩ := number?_split found
      have long := List.length_pos_iff.mpr filled
      exact (tokenLevel LevelAhead.sound (fun _ => rfl) literal whole filled).bind fun _ _ _ =>
        pure (fun i => .number i.2.2) (by omega)
    · exact (named inner le bound enough).level LevelAhead.sound solid fun _ => Nat.le_refl 1

end Mirrors

/-- What an operand with the signs before it is read as, by the text that it begins. -/
def Reader.operandFrom (expression : Reader Expr) (bound : Nat) (start : Cursor)
    (text : List Char) : Reader Expr := do
  match text with
  | '-' :: _ =>
      take 1
      let inner ← operand expression bound
      return .unary (← sliceFrom start) .minus inner
  | '!' :: _ =>
      take 1
      let inner ← operand expression bound
      return .unary (← sliceFrom start) .not inner
  | _ => primary (bound + 1) expression

theorem Reader.operand_succ (bound : Nat) (expression : Reader Expr) :
    operand expression (bound + 1) = mark >>= fun start =>
      operandFrom expression bound start start.rest :=
  rfl

theorem Level.operandFrom_eq {text other : List Char} (level : Level text other)
    (expression : Reader Expr) (bound : Nat) (start : Cursor) :
    Reader.operandFrom expression bound start other =
      Reader.operandFrom expression bound start text := by
  cases level with
  | nil => rfl
  | cons c =>
    unfold Reader.operandFrom
    split <;> (split <;> simp_all)

namespace Mirrors

variable {ι : Type} {room most : Nat} {c : Cursor} {expression other : Reader Expr}

/-- An operand with the signs before it. -/
theorem operand (inner : MirrorsWithin room expression other) (le : most ≤ room + 1) (bound : Nat)
    {bound' : Nat} (enough : most ≤ bound' + 1) :
    Mirrors LevelAhead LevelAhead (fun _ => 1) most (Reader.operand expression bound)
      (fun _ : ι => Reader.operand other bound') Expr.Alike c := by
  induction bound generalizing ι bound' most c with
  | zero => exact failure
  | succ bound ih =>
    have main (bound' : Nat) (enough : most ≤ bound' + 1 + 1) :
        Mirrors LevelAhead LevelAhead (fun _ => 1) most (Reader.operand expression (bound + 1))
          (fun _ : ι => Reader.operand other (bound' + 1)) Expr.Alike c := by
      rw [Reader.operand_succ, Reader.operand_succ]
      refine mark.bind fun start d run => ?_
      obtain ⟨rfl, solid⟩ := Reader.mark_run run
      refine congr (fun i => Reader.operandFrom other bound' i.2.1 start.rest) ?_ fun i =>
        i.2.2.operandFrom_eq other bound' i.2.1
      have signed {sign : Char} {op : UnaryOp} {rest : List Char} (split : start.rest = sign :: rest) :
          Mirrors Level LevelAhead (fun _ => 1) most
            (do
              Reader.take 1
              let inner ← Reader.operand expression bound
              return .unary (← Reader.sliceFrom start) op inner)
            (fun i : ι × { b // Level start.rest b.rest } => do
              Reader.take 1
              let inner ← Reader.operand other bound'
              return .unary (← Reader.sliceFrom i.2.1) op inner) Expr.Alike start := by
        have one : [sign].length = 1 := rfl
        refine (takeLevel LevelAhead.sound [sign] split (by simp)).andThen fun _ _ _ => ?_
        refine (ih (by omega) (by omega)).bind fun e _ _ => ?_
        exact sliceFrom.bind fun slice _ _ => pure (fun i => .unary i.1.2.2) (by simp)
      unfold Reader.operandFrom
      split
      · exact signed ‹_›
      · exact signed ‹_›
      · exact (primary inner le (bound + 1) enough).level LevelAhead.sound solid
          fun _ => Nat.le_refl 1
    cases bound' with
    | zero => exact (main 0 (by omega)).vacuous fun _ => enough
    | succ bound' => exact main bound' enough

end Mirrors

/-- The sign of an operator. -/
theorem operator_sign {text : List Char} {length : Nat}
    (found : Reader.operatorLength? text = some length) :
    text.take length ≠ [] ∧ (∀ c ∈ (text.take length).tail, c ≠ '#' ∧ c ≠ '/' ∧ c ≠ ' ') ∧
      ∀ {other}, Level text other → other.take length = text.take length := by
  cases text with
  | nil => cases found
  | cons c rest =>
    have one : ([c] : List Char) ≠ [] ∧ (∀ d ∈ [c].tail, d ≠ '#' ∧ d ≠ '/' ∧ d ≠ ' ') ∧
        ∀ {other}, Level (c :: rest) other → other.take 1 = [c] := by
      refine ⟨by simp, by simp, fun level => ?_⟩
      obtain ⟨left, rfl, -⟩ := level.next rfl
      rfl
    rw [operatorLength?_cons] at found
    split at found
    · rename_i pair
      obtain ⟨d, after, rfl, plain⟩ :
          ∃ d after, rest = d :: after ∧ d ≠ '#' ∧ d ≠ '/' ∧ d ≠ ' ' := by
        have begun {d : Char} (starts : [d].isPrefixOf rest = true) : ∃ after, rest = d :: after := by
          obtain ⟨after, rfl⟩ := List.isPrefixOf_iff_prefix.mp starts
          exact ⟨after, rfl⟩
        rw [Bool.or_eq_true, Bool.and_eq_true, Bool.and_eq_true, Bool.or_eq_true, beq_iff_eq,
          beq_iff_eq] at pair
        rcases pair with ⟨-, equal⟩ | ⟨rfl | rfl, same⟩
        · obtain ⟨after, rfl⟩ := begun equal
          exact ⟨'=', after, rfl, by decide⟩
        · obtain ⟨after, rfl⟩ := begun same
          exact ⟨'&', after, rfl, by decide⟩
        · obtain ⟨after, rfl⟩ := begun same
          exact ⟨'|', after, rfl, by decide⟩
      cases found
      refine ⟨by simp, by simpa using plain, fun level => ?_⟩
      obtain ⟨left, rfl, along⟩ := level.next rfl
      obtain ⟨left, rfl, -⟩ := along.of_cons ⟨plain.1, plain.2.1⟩
      rfl
    · split at found
      · split at found
        · cases found
          exact one
        · cases found
      · split at found
        · cases found
          exact one
        · cases found

/-- What follows an operand, by the text that it begins. -/
def Reader.linkFrom (bound : Nat) (expression : Reader Expr) (text : List Char) :
    Reader (Option (List Expr)) := do
  match text with
  | '.' :: '.' :: '.' :: _ => return none
  | '.' :: '*' :: _ =>
      symbol ['.', '*']
      return some []
  | '.' :: _ =>
      symbol ['.']
      match digitsOf? (← ahead) with
      | some digits =>
          skipGap
          let _ ← token .index digits.length
      | none =>
          let _ ← name
      return some []
  | '[' :: '*' :: ']' :: _ =>
      symbol ['[', '*', ']']
      return some []
  | '[' :: _ =>
      symbol ['[']
      let index ← expression
      symbol [']']
      return some [index]
  | text =>
      match operatorLength? text with
      | some length =>
          symbol (text.take length)
          return some [← operand expression bound]
      | none => return none

theorem Reader.link_eq (bound : Nat) (expression : Reader Expr) :
    link bound expression = ahead >>= fun text => linkFrom bound expression text :=
  rfl

theorem Reader.linkFrom_cons (bound : Nat) (expression : Reader Expr) (c : Char)
    (rest : List Char) :
    linkFrom bound expression (c :: rest) =
      if c = '.' then
        if ['.', '.'].isPrefixOf rest then return none
        else if ['*'].isPrefixOf rest then do
          symbol ['.', '*']
          return some []
        else do
          symbol ['.']
          match digitsOf? (← ahead) with
          | some digits =>
              skipGap
              let _ ← token .index digits.length
          | none =>
              let _ ← name
          return some []
      else if c = '[' then
        if ['*', ']'].isPrefixOf rest then do
          symbol ['[', '*', ']']
          return some []
        else do
          symbol ['[']
          let index ← expression
          symbol [']']
          return some [index]
      else match operatorLength? (c :: rest) with
        | some length => do
            symbol ((c :: rest).take length)
            return some [← operand expression bound]
        | none => return none := by
  have other {sign text : List Char} (differs : ∀ after, text ≠ sign ++ after) :
      sign.isPrefixOf text = false :=
    Bool.eq_false_iff.mpr fun starts =>
      have ⟨after, same⟩ := List.isPrefixOf_iff_prefix.mp starts
      differs after same.symm
  unfold linkFrom
  split
  case h_3 =>
    rename_i dots star same
    obtain ⟨rfl, rfl⟩ := List.cons.inj same
    rw [if_pos rfl, other dots, other star]
    rfl
  case h_5 =>
    rename_i star same
    obtain ⟨rfl, rfl⟩ := List.cons.inj same
    rw [if_neg (by decide : ¬ '[' = '.'), if_pos rfl, other star]
    rfl
  all_goals simp_all

theorem Level.linkFrom_eq {text other : List Char} (level : Level text other) (bound : Nat)
    (expression : Reader Expr) :
    Reader.linkFrom bound expression other = Reader.linkFrom bound expression text := by
  have operators := level.operatorLength?_eq
  cases level with
  | nil => rfl
  | cons c later =>
    have starts (sign : List Char) (plain : ∀ d ∈ sign, d ≠ '#' ∧ d ≠ '/' ∧ d ≠ ' ') :=
      later.isPrefixOf_eq plain
    rw [Reader.linkFrom_cons, Reader.linkFrom_cons, starts ['.', '.'] (by simp),
      starts ['*'] (by simp), starts ['*', ']'] (by simp), ← operators]
    cases found : Reader.operatorLength? _ with
    | none => rfl
    | some length => simp only [(operator_sign found).2.2 (Level.cons c later)]

namespace Mirrors

variable {ι : Type} {room most : Nat} {c : Cursor} {expression other : Reader Expr}

/-- What follows an operand. -/
theorem link (inner : MirrorsWithin room expression other) (le : most ≤ room) (bound : Nat)
    {bound' : Nat} (enough : most ≤ bound') :
    Mirrors LevelAhead LevelAhead (fun found => found.elim 0 fun _ => 1) most
      (Reader.link bound expression) (fun _ : ι => Reader.link bound' other)
      (Option.Rel (List.Forall₂ Expr.Alike)) c := by
  rw [Reader.link_eq, Reader.link_eq]
  refine ahead.bindSame fun text _ _ => ⟨fun _ b level => level.linkFrom_eq bound' other, ?_⟩
  unfold Reader.linkFrom
  split
  · exact pure (fun _ => .none) rfl
  · exact (symbol LevelAhead.sound (by simp) (by simp)).andThen fun _ _ _ =>
      pure (fun _ => .some .nil) (by simp)
  · refine (symbol LevelAhead.sound (by simp) (by simp)).andThen fun _ _ _ => ?_
    refine ahead.bindSame fun text d run =>
      ⟨fun _ b level => by rw [level.alongside.digitsOf?_eq], ?_⟩
    obtain ⟨rfl, leads⟩ := Reader.ahead_run run
    cases found : digitsOf? text with
    | some digits =>
      refine skipGap.andThen fun _ e skipped => ?_
      obtain rfl := (Leads.of_skipGapFrom (Reader.skipGap_run skipped)).eq leads
      obtain ⟨rest, split, filled, -⟩ := Exponent.digitsOf?_split found
      exact (tokenLevel LevelAhead.sound (fun _ => rfl) digits split filled).andThen fun _ _ _ =>
        pure (fun _ => .some .nil) (by simp)
    | none =>
      exact (name LevelAhead.sound).andThen fun _ _ _ => pure (fun _ => .some .nil) (by simp)
  · exact (symbol LevelAhead.sound (by simp) (by simp)).andThen fun _ _ _ =>
      pure (fun _ => .some .nil) (by simp)
  · refine (symbol LevelAhead.sound (by simp) (by simp)).andThen fun _ _ _ => ?_
    refine (inner _ _ (by omega)).bind fun index _ _ => ?_
    exact (symbol LevelAhead.sound (by simp) (by simp)).andThen fun _ _ _ =>
      pure (fun i => .some (.cons i.2.2 .nil)) (by simp)
  · split
    · rename_i length found
      obtain ⟨filled, plain, -⟩ := operator_sign found
      have long := List.length_pos_iff.mpr filled
      refine (symbol LevelAhead.sound filled plain).andThen fun _ _ _ => ?_
      exact (operand inner (by omega) bound (by omega)).bind fun e _ _ =>
        pure (fun i => .some (.cons i.2.2 .nil)) (by simp)
    · exact pure (fun _ => .none) rfl

theorem term (inner : MirrorsWithin room expression other) (le : most ≤ room + 1) (bound : Nat)
    {bound' : Nat} (enough : most ≤ bound' + 1) :
    Mirrors LevelAhead LevelAhead (fun _ => 1) most (Reader.term bound expression)
      (fun _ : ι => Reader.term bound' other) Expr.Alike c := by
  refine mark.bind fun start d run => ?_
  obtain ⟨rfl, solid⟩ := Reader.mark_run run
  refine ((operand inner (by omega) bound (by omega)).level LevelAhead.sound solid
    fun _ => Nat.le_refl 1).bind fun first _ _ => ?_
  refine (repeated (fun fewer c few => link inner (by omega) bound (by omega)) bound
    (by omega)).bind fun links _ _ => ?_
  refine congr (fun i => if links.isEmpty then Pure.pure i.1.2.1
    else Reader.sliceFrom i.1.1.2.1 >>= fun slice =>
      Pure.pure (.compound slice .operation (i.1.2.1 :: i.2.1.flatten))) ?_ fun i => ?_
  · refine ite (fun _ => pure (fun i => i.1.2.2) (by simp)) fun _ => ?_
    refine sliceFrom.bind fun slice _ _ => pure (fun i => .compound (.cons i.1.1.2.2 ?_)) (by simp)
    exact List.rel_flatten i.1.2.2
  · obtain ⟨i, others, like⟩ := i
    cases like <;> rfl

theorem expressionWith (inner : MirrorsWithin room expression other) (le : most ≤ room + 1)
    (bound : Nat) {bound' : Nat} (enough : most ≤ bound' + 1) :
    Mirrors LevelAhead LevelAhead (fun _ => 1) most (Reader.expressionWith bound expression)
      (fun _ : ι => Reader.expressionWith bound' other) Expr.Alike c := by
  refine mark.bind fun start d run => ?_
  obtain ⟨rfl, solid⟩ := Reader.mark_run run
  refine ((term inner (by omega) bound (by omega)).level LevelAhead.sound solid
    fun _ => Nat.le_refl 1).bind fun first _ _ => ?_
  refine (optional (by simp) (by simp)).bindEq fun asked _ _ => ite (fun _ => ?_) fun _ => ?_
  · refine (inner _ _ (by omega)).bind fun whenTrue _ _ => ?_
    refine (symbol LevelAhead.sound (by simp) (by simp)).andThen fun _ _ _ => ?_
    refine (inner _ _ (by omega)).bind fun whenFalse _ _ => ?_
    refine sliceFrom.bind fun slice _ _ => pure (fun i => ?_) (by simp)
    exact .compound (.cons i.1.1.1.2.2 (.cons i.1.1.2.2 (.cons i.1.2.2 .nil)))
  · exact pure (fun i => i.2.2) (by simp)

end Mirrors

namespace Mirrors

variable {ι : Type} {most : Nat} {c : Cursor}

theorem expression (bound : Nat) {bound' : Nat} (enough : most ≤ bound') :
    Mirrors LevelAhead LevelAhead (fun _ => 1) most (Reader.expression bound)
      (fun _ : ι => Reader.expression bound') Expr.Alike c := by
  induction bound generalizing ι bound' most c with
  | zero => exact failure
  | succ bound ih =>
    have main (bound' : Nat) (enough : most ≤ bound' + 1) :
        Mirrors LevelAhead LevelAhead (fun _ => 1) most (Reader.expression (bound + 1))
          (fun _ : ι => Reader.expression (bound' + 1)) Expr.Alike c :=
      expressionWith (fun fewer c few => ih few : MirrorsWithin bound' _ _) enough bound enough
    cases bound' with
    | zero => exact (main 0 (by omega)).vacuous fun _ => by omega
    | succ bound' => exact main bound' enough

end Mirrors

end TerraDoc.Hcl
