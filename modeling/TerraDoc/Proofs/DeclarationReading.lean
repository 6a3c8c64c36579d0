import TerraDoc.Hcl.Block
import TerraDoc.Proofs.ExpressionReading
import TerraDoc.Proofs.ValueScan

namespace TerraDoc.Hcl

open Reader Exponent

/-- An attribute in the body of a declaration. -/
def attributeText (field : String) (written : List Char) : List Char :=
  '\n' :: ' ' :: ' ' :: (field.toList ++ ' ' :: '=' :: ' ' :: (written ++ ['\n']))

/-- The declaration of the variable `x` with one attribute. -/
def declarationText (field : String) (written : List Char) : List Char :=
  "variable".toList ++ ' ' :: (Value.quotedText "x" ++ ' ' ::
    ('{' :: (attributeText field written ++ ['}']) ++ ['\n']))

variable {field : String} {written : List Char} {good : Expr → Prop}

theorem normalize_declarationText (named : name? field.toList = some field.toList)
    (crosses : Crosses (written ++ ['\n']) ['}', '\n']) :
    normalize (declarationText field written) = declarationText field written := by
  have inner : Crosses (attributeText field written) ['}', '\n'] := by
    refine .cons rfl (.cons rfl (.cons rfl (.append ?_ ?_)))
    · exact .name named ⟨' ', _, rfl, by simp⟩
    exact .cons rfl (.cons rfl (.cons rfl crosses))
  have whole : Crosses (declarationText field written) [] := by
    refine .append (.name (by decide) ⟨' ', _, rfl, by simp⟩) ?_
    refine .cons rfl (.append (.quotedText "x" _) (.cons rfl (.append ?_ ?_)))
    · exact .braces inner
    · exact .single (by decide) _
  obtain ⟨t, scanned, -⟩ := whole .initial 0 rfl (fresh_start rfl _)
  have same := scanned.normalizeFrom
  rwa [List.append_nil, normalizeFrom, List.append_nil] at same

variable {total : Nat}

/-- A body of one item, up to a closing brace or the end. -/
theorem body_single {bound : Nat} {text left rest : List Char} {c : Char} {good : Item → Prop}
    (before : Gap.Before text (c :: rest)) (other : c ≠ '}')
    (read : Reads total (item (bound + 2) (body (bound + 2))) text left good)
    (done : ∃ next, Gap.Before left next ∧ (next = [] ∨ ∃ after, next = '}' :: after)) :
    Reads total (body (bound + 3)) text left fun items => ∃ item, items = [item] ∧ good item := by
  refine (Reads.repeated_more good ?more
    (.repeated_done bound ?last : Reads total _ left left _)).mono ?_
  case more =>
    refine .bind (.ahead before) fun next same => ?_
    rw [same]
    split
    · rename_i equal
      cases equal
    · rename_i equal
      exact absurd (List.cons.inj equal).1 other
    · exact .bind read fun item holds => .pure ⟨item, rfl, holds⟩
  case last =>
    obtain ⟨next, gap, shape⟩ := done
    refine .bind (.ahead gap) fun there same => ?_
    rw [same]
    rcases shape with rfl | ⟨after, rfl⟩
    · exact .pure rfl
    · exact .pure rfl
  rintro items ⟨item, others, rfl, read, rfl⟩
  exact ⟨item, rfl, read⟩

/-- An attribute that was read: its name, and a good expression. -/
def IsAttribute (field : String) (good : Expr → Prop) (item : Item) : Prop :=
  ∃ name e, item = .attr name e ∧ name.text = field.toList ∧ good e

/-- The body of a declaration holds its attribute and nothing else. -/
theorem body_attributeText (named : name? field.toList = some field.toList)
    (writes : WritesLine written good) {bound : Nat} (after : List Char)
    (enough : written.length < bound) :
    Reads total (body (bound + 3)) (attributeText field written ++ '}' :: after)
      ('\n' :: '}' :: after) fun items => ∃ item, items = [item] ∧ IsAttribute field good item := by
  have closing : Gap.Before ('\n' :: '}' :: after) ('}' :: after) := .cons rfl (.here rfl)
  have split : attributeText field written ++ '}' :: after = '\n' :: ' ' :: ' ' ::
      (field.toList ++ ' ' :: '=' :: ' ' :: (written ++ '\n' :: '}' :: after)) := by
    simp [attributeText]
  have word : name? (field.toList ++ ' ' :: '=' :: ' ' :: (written ++ '\n' :: '}' :: after)) =
      some field.toList := name?_append named (Ends.name ⟨' ', _, rfl, by simp⟩)
  obtain ⟨c, tail, none, whole, shape, starts, -⟩ := name?_shape named
  rw [shape] at split word
  have before : Gap.Before (attributeText field written ++ '}' :: after)
      (c :: tail ++ ' ' :: '=' :: ' ' :: (written ++ '\n' :: '}' :: after)) := by
    rw [split]
    exact .cons rfl (.cons rfl (.cons rfl (.here (startsToken_of_startsWord starts))))
  have other : c ≠ '}' := by rintro rfl; cases starts
  have equals : Gap.Before (' ' :: '=' :: ' ' :: (written ++ '\n' :: '}' :: after))
      (['='] ++ ' ' :: (written ++ '\n' :: '}' :: after)) := .cons rfl (.here rfl)
  refine body_single before other ?_ ⟨_, closing, .inr ⟨after, rfl⟩⟩
  refine .bind (.name before word) fun name text => ?_
  refine .bind (.optional_true equals) fun assigned yes => ?_
  rw [yes]
  refine .bind (writes.reads _ _ _ _ (by omega) (.cons (by decide) (writes.before _))
    (.sign after (by simp))) fun e holds => ?_
  exact .pure ⟨name, e, rfl, text.trans shape.symm, holds⟩

theorem quotedLabel_x (bound : Nat) (after : List Char) :
    Reads total (quotedLabel (bound + 2)) (Value.quotedText "x" ++ after) after
      (·.text = Value.quotedText "x") := by
  have split : Value.quotedText "x" ++ after = '"' :: 'x' :: '"' :: after := rfl
  refine .bind .get fun start ⟨same, place⟩ => ?_
  rw [split]
  refine .bind (.take_one '"' _) fun _ _ => ?_
  have stretch : Reads total labelPart ('x' :: '"' :: after) ('"' :: after)
      fun found => ∃ read, found = some read ∧ True := by
    refine .bind .get fun start ⟨same, place⟩ => ?_
    rw [same]
    exact .bind (.token .labelText ['x'] ('"' :: after)) fun _ _ => .pure ⟨(), rfl, trivial⟩
  have last : Reads total labelPart ('"' :: after) ('"' :: after) (· = none) := by
    refine .bind .get fun start ⟨same, place⟩ => ?_
    rw [same]
    exact .pure rfl
  refine .bind (.repeated_more _ stretch (.repeated_done bound last)) fun _ _ => ?_
  refine .bind (.take_one '"' after) fun _ _ => .bind (.sliceFrom same place) fun slice text => ?_
  exact .bind (.keep _) fun _ _ => .pure text

/-- The block that was read: a variable of the name `x` with one attribute. -/
def IsDeclaration (field : String) (good : Expr → Prop) (item : Item) : Prop :=
  ∃ kind label attr, item = .block kind [.quoted label] [attr] ∧
    kind.text = "variable".toList ∧ label.text = Value.quotedText "x" ∧
      IsAttribute field good attr

/-- A declaration is read as one block. -/
theorem item_declarationText (named : name? field.toList = some field.toList)
    (writes : WritesLine written good) {bound : Nat} (enough : written.length < bound) :
    Reads total (item (bound + 3) (body (bound + 3))) (declarationText field written) ['\n']
      (IsDeclaration field good) := by
  have word (rest : List Char) : name? ("variable".toList ++ ' ' :: rest) = some "variable".toList :=
    name?_append (by decide) (Ends.name ⟨' ', rest, rfl, by simp⟩)
  have split : declarationText field written = "variable".toList ++ ' ' ::
      (Value.quotedText "x" ++ ' ' :: '{' :: (attributeText field written ++ '}' :: ['\n'])) := by
    unfold declarationText
    simp only [List.append_assoc, List.cons_append, List.nil_append]
  have before (rest : List Char) :
      Gap.Before ("variable".toList ++ ' ' :: rest) ("variable".toList ++ ' ' :: rest) :=
    .here (c := 'v') rfl
  rw [split]
  refine .bind (.name (before _) (word _)) fun kind keyword => ?_
  refine .bind (.optional_false (.cons rfl (.here (c := '"') rfl)) rfl) fun assigned no => ?_
  rw [no]
  have quoted : Reads total (label (bound + 3))
      (' ' :: (Value.quotedText "x" ++
        ' ' :: '{' :: (attributeText field written ++ '}' :: ['\n'])))
      (' ' :: '{' :: (attributeText field written ++ '}' :: ['\n']))
      fun found => ∃ label, found = some label ∧
        ∃ slice : Slice, slice.text = Value.quotedText "x" ∧ label = .quoted slice := by
    refine .bind (.mark (.cons rfl (.here (c := '"') rfl))) fun start ⟨same, _⟩ => ?_
    rw [same]
    exact .bind (quotedLabel_x (bound + 1) _) fun slice text => .pure ⟨_, rfl, slice, text, rfl⟩
  have last : Reads total (label (bound + 3))
      (' ' :: '{' :: (attributeText field written ++ '}' :: ['\n']))
      ('{' :: (attributeText field written ++ '}' :: ['\n'])) (· = none) := by
    refine .bind (.mark (.cons rfl (.here (c := '{') rfl))) fun start ⟨same, _⟩ => ?_
    rw [same]
    exact .pure rfl
  refine .bind (.repeated_more _ quoted (.repeated_done (bound + 1) last)) fun labels shape => ?_
  obtain ⟨label, others, rfl, ⟨slice, text, rfl⟩, rfl⟩ := shape
  refine .bind (.symbol (.here (c := '{') rfl)) fun _ _ => ?_
  refine .bind (body_attributeText named writes ['\n'] enough) fun items shape => ?_
  obtain ⟨attr, rfl, read⟩ := shape
  refine .bind (.symbol (.cons rfl (.here (c := '}') rfl))) fun _ _ => ?_
  exact .pure ⟨kind, slice, attr, rfl, keyword, text, read⟩

theorem declarationText_no_null (named : name? field.toList = some field.toList)
    (plain : '\x00' ∉ written) : (declarationText field written).contains '\x00' = false := by
  have keyword : '\x00' ∉ "variable".toList := by decide
  have label : '\x00' ∉ Value.quotedText "x" := by decide +kernel
  have word : '\x00' ∉ field.toList := name_no_null named
  rw [List.contains_eq_mem, decide_eq_false_iff_not]
  unfold declarationText attributeText
  simp only [List.mem_append, List.mem_cons, List.cons_append,
    List.not_mem_nil, keyword, label, word, plain, Char.reduceEq, or_false, not_false_eq_true]

/-- A declaration is read as one block with one attribute. -/
theorem readFile?_declarationText (named : name? field.toList = some field.toList)
    (writes : WritesLine written good) (plain : '\x00' ∉ written) :
    ∃ file item, readFile? (declarationText field written) = some file ∧
      file.content = .body [item] ∧ IsDeclaration field good item := by
  obtain ⟨bound, length, enough⟩ : ∃ bound,
      (declarationText field written).length + 2 = bound + 4 ∧ written.length < bound := by
    have long : written.length + 2 < (declarationText field written).length := by
      unfold declarationText attributeText
      simp only [List.length_append, List.length_cons]
      omega
    exact ⟨(declarationText field written).length - 2, by omega, by omega⟩
  obtain ⟨rest, first⟩ : ∃ rest, declarationText field written = 'v' :: rest := ⟨_, rfl⟩
  have start : Gap.Before (declarationText field written) ('v' :: rest) := by
    rw [first]
    exact .here rfl
  have last : Gap.Before ['\n'] [] := .cons rfl (.of_solid solid_nil)
  have content : Reads (declarationText field written).length (content (bound + 4))
      (declarationText field written) ['\n']
      fun content => ∃ item, content = .body [item] ∧ IsDeclaration field good item := by
    refine .bind (.ahead start) ?_
    rintro next rfl
    refine .bind (body_single start (by decide) (item_declarationText named writes enough)
      ⟨[], last, .inl rfl⟩) fun items shape => ?_
    obtain ⟨item, rfl, read⟩ := shape
    exact .pure ⟨item, rfl, read⟩
  obtain ⟨found, p, tokens, run, place, item, rfl, read⟩ := content 0 [] (Nat.zero_add _)
  obtain ⟨⟨⟩, q, tokens', skipped, -, -⟩ := Reads.skipGap last p tokens place
  refine ⟨⟨declarationText field written, .body [item], tokens'.reverse⟩, item, ?_, rfl, read⟩
  have beginning : origin (declarationText field written) =
      ⟨0, declarationText field written, []⟩ := by
    rw [first]
    rfl
  rw [readFile?, declarationText_no_null named plain, length, beginning]
  simp [StateT.run, run, skipped]

theorem blocks_declarationText {file : File} {item : Item} (content : file.content = .body [item])
    (read : IsDeclaration field good item) :
    ∃ e line, file.blocks = [⟨"variable", ["x"], [⟨field, e⟩], line⟩] ∧
      good e := by
  obtain ⟨kind, label, attr, rfl, keyword, text, name, e, rfl, word, holds⟩ := read
  refine ⟨e, lineAt file.source kind.start, ?_, holds⟩
  have labelled : (Label.quoted label).text = "x" := by
    simp [Label.text, text, decode_quotedText]
  simp [File.blocks, content, Item.block?, Item.attribute?, Slice.string, keyword, word, labelled]

/-- A declaration with what is written for an expression up to the end of its line is a source of
one variable, whose attribute is a good expression. -/
theorem parse?_declarationLine (named : name? field.toList = some field.toList)
    (writes : WritesLine written good) (plain : '\x00' ∉ written)
    (crosses : Crosses (written ++ ['\n']) ['}', '\n']) :
    ∃ file e line, parse? (declarationText field written) = some file ∧
      file.blocks = [⟨"variable", ["x"], [⟨field, e⟩], line⟩] ∧ good e := by
  obtain ⟨file, item, read, content, declared⟩ := readFile?_declarationText named writes plain
  obtain ⟨e, line, blocks, holds⟩ := blocks_declarationText content declared
  refine ⟨file, e, line, ?_, blocks, holds⟩
  rw [parse?, normalize_declarationText named crosses, read]

/-- A declaration with what is written for an expression is a source of one variable, whose
attribute is a good expression. -/
theorem parse?_declarationText (named : name? field.toList = some field.toList)
    (writes : Writes written good) (plain : '\x00' ∉ written)
    (crosses : ∀ after, Ends after → Crosses written after) :
    ∃ file e line, parse? (declarationText field written) = some file ∧
      file.blocks = [⟨"variable", ["x"], [⟨field, e⟩], line⟩] ∧ good e := by
  refine parse?_declarationLine named writes.line plain (.append (crosses _ ?_) ?_)
  · exact ⟨'\n', _, rfl, by simp⟩
  · exact .single (by decide) _

end TerraDoc.Hcl
