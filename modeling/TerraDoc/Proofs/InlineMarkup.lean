import TerraDoc.Proofs.LineText
import TerraDoc.Proofs.Results
import TerraDoc.Proofs.TableRows
import TerraDoc.Scan

/-!
Links and code spans as readers of Markdown see them, by the rules of CommonMark. The documents put
texts between the signs of a span or a link as they are; here it is said exactly which texts come
out as one span, and which paths as one link that leads to them.
-/

namespace TerraDoc.Docs

namespace Markdown

/-- The lengths of the runs of backticks in a text that stands after so many of them. -/
def runsFrom (before : Nat) : List Char → List Nat
  | [] => if before = 0 then [] else [before]
  | c :: rest =>
      if c = '`' then runsFrom (before + 1) rest
      else if before = 0 then runsFrom 0 rest
      else before :: runsFrom 0 rest

def runs (text : List Char) : List Nat :=
  runsFrom 0 text

/-- A text is one code span: runs of backticks of one length open and close it, and no run between
them is as long. -/
structure IsCodeSpan (text : List Char) : Prop where
  first : text.head? = some '`'
  last : text.getLast? = some '`'
  closed : ∃ length between, runs text = length :: (between ++ [length]) ∧ length ∉ between

def ticks (count : Nat) : List Char :=
  List.replicate count '`'

/-- A text with something between the backticks that it begins and ends with. -/
structure IsCore (core : List Char) : Prop where
  nonempty : core ≠ []
  first : core.head? ≠ some '`'
  last : core.getLast? ≠ some '`'

/-- A text that is not made of backticks alone, with as many of them before as after it, and none
of its runs inside longer by one. -/
def Enclosable (text : List Char) : Prop :=
  ∃ count core, text = ticks count ++ (core ++ ticks count) ∧ IsCore core ∧
    count + 1 ∉ runs core

theorem runsFrom_ticks (before count : Nat) (rest : List Char) :
    runsFrom before (ticks count ++ rest) = runsFrom (before + count) rest := by
  induction count generalizing before with
  | zero => rfl
  | succ count inductionHypothesis =>
    rw [ticks, List.replicate_succ, List.cons_append, runsFrom, if_pos rfl]
    rw [← ticks, inductionHypothesis, Nat.add_assoc, Nat.add_comm 1]

theorem runsFrom_of_head {before : Nat} (started : before ≠ 0) {text : List Char}
    (nonempty : text ≠ []) (first : text.head? ≠ some '`') :
    runsFrom before text = before :: runs text := by
  cases text with
  | nil => contradiction
  | cons c rest =>
    have other : c ≠ '`' := by simpa using first
    simp [runs, runsFrom, other, started]

/-- No run goes on behind another character. -/
theorem runsFrom_append (before : Nat) {text : List Char} (nonempty : text ≠ [])
    (last : text.getLast? ≠ some '`') (rest : List Char) :
    runsFrom before (text ++ rest) = runsFrom before text ++ runs rest := by
  induction text generalizing before with
  | nil => contradiction
  | cons c text inductionHypothesis =>
    cases text with
    | nil =>
      have other : c ≠ '`' := by simpa using last
      by_cases none : before = 0
      · simp [runs, runsFrom, other, none]
      · simp [runs, runsFrom, other, none]
    | cons d text =>
      have later (before : Nat) := inductionHypothesis before (List.cons_ne_nil d text)
        (by simpa using last)
      rw [List.cons_append, runsFrom, later, later, runsFrom.eq_def before (c :: d :: text)]
      dsimp only
      split
      · rfl
      · split
        · rfl
        · rfl

theorem runs_ticks (count : Nat) : runs (ticks (count + 1)) = [count + 1] := by
  have all := runsFrom_ticks 0 (count + 1) []
  rw [List.append_nil] at all
  rw [runs, all, Nat.zero_add]
  simp [runsFrom]

theorem IsCore.runs_enclosed {core : List Char} (isCore : IsCore core) (before after : Nat) :
    runs (ticks (before + 1) ++ (core ++ ticks (after + 1))) =
      (before + 1) :: (runs core ++ [after + 1]) := by
  rw [runs, runsFrom_ticks, Nat.zero_add, runsFrom_append _ isCore.nonempty isCore.last,
    runsFrom_of_head (Nat.succ_ne_zero before) isCore.nonempty isCore.first, runs_ticks]
  rfl

theorem eq_ticks_of_forall {text : List Char} (all : ∀ c ∈ text, (c == '`') = true) :
    text = ticks text.length := by
  rw [ticks, List.eq_replicate_iff]
  exact ⟨rfl, fun c member => beq_iff_eq.mp (all c member)⟩

theorem ticks_or_enclosed (text : List Char) :
    (∃ count, text = ticks count) ∨
      ∃ before after core, text = ticks before ++ (core ++ ticks after) ∧ IsCore core := by
  by_cases kept : ∃ c ∈ text, (c == '`') = false
  · obtain ⟨nonempty, first, last⟩ := Text.trimWhile_ends (· == '`') kept
    obtain ⟨front, back, split, before, after⟩ := Text.trimWhile_split (· == '`') text
    refine .inr ⟨front.length, back.length, Text.trimWhile (· == '`') text, ?_, nonempty, ?_, ?_⟩
    · rw [← eq_ticks_of_forall before, ← eq_ticks_of_forall after]
      exact split
    · exact fun tick => absurd (first '`' tick) (by decide)
    · exact fun tick => absurd (last '`' tick) (by decide)
  · refine .inl ⟨text.length, eq_ticks_of_forall fun c member => ?_⟩
    by_contra other
    exact kept ⟨c, member, by simpa using other⟩

theorem code_ticks (count : Nat) : code (ticks count) = ticks (count + 2) := by
  rw [code, ticks, ← List.replicate_succ', ← List.replicate_succ]
  rfl

theorem code_enclosed (before after : Nat) (core : List Char) :
    code (ticks before ++ (core ++ ticks after)) =
      ticks (before + 1) ++ (core ++ ticks (after + 1)) := by
  simp [code, ticks, List.replicate_succ, ← List.replicate_succ']

theorem isCodeSpan_code_iff (text : List Char) : IsCodeSpan (code text) ↔ Enclosable text := by
  constructor
  · rintro ⟨-, -, length, between, same, apart⟩
    rcases ticks_or_enclosed text with ⟨count, rfl⟩ | ⟨before, after, core, rfl, isCore⟩
    · rw [code_ticks, runs_ticks] at same
      simp at same
    · rw [code_enclosed, isCore.runs_enclosed] at same
      obtain ⟨rfl, same⟩ := List.cons.inj same
      obtain ⟨rfl, last⟩ := List.append_inj' same rfl
      obtain rfl : after = before := by simpa using last
      exact ⟨after, core, rfl, isCore, apart⟩
  · rintro ⟨count, core, rfl, isCore, apart⟩
    refine ⟨rfl, ?_, count + 1, runs core, ?_, apart⟩
    · rw [code, ← List.cons_append, List.getLast?_concat]
    · rw [code_enclosed, isCore.runs_enclosed]

theorem runs_of_no_tick {text : List Char} (none : '`' ∉ text) : runs text = [] := by
  induction text with
  | nil => rfl
  | cons c rest inductionHypothesis =>
    obtain ⟨other, later⟩ := List.ne_and_not_mem_of_not_mem_cons none
    rw [runs, runsFrom, if_neg (Ne.symm other), if_pos rfl]
    exact inductionHypothesis later

theorem enclosable_of_no_tick {text : List Char} (nonempty : text ≠ []) (none : '`' ∉ text) :
    Enclosable text := by
  refine ⟨0, text, by simp [ticks], ⟨nonempty, ?_, ?_⟩, by simp [runs_of_no_tick none]⟩
  · exact fun first => none (List.mem_of_mem_head? first)
  · exact fun last => none (List.mem_of_mem_getLast? last)

/-- ASCII punctuation: what a backslash can quote. -/
def isPunctuation (c : Char) : Bool :=
  ('!' ≤ c && c ≤ '/') || (':' ≤ c && c ≤ '@') || ('[' ≤ c && c ≤ '`') || ('{' ≤ c && c ≤ '~')

/-- A reading of character references: from what stands after an ampersand, the text that the
reference stands for, and how many characters of it there are after the ampersand. It is never
shorter than that text. -/
structure References where
  read : List Char → Option (List Char × Nat)
  within {rest meant : List Char} {length : Nat} :
    read rest = some (meant, length) → length ≤ rest.length
  longer {rest meant : List Char} {length : Nat} :
    read rest = some (meant, length) → meant.length ≤ length

/-- No text is a character reference. -/
instance : Inhabited References :=
  ⟨⟨fun _ => none, nofun, nofun⟩⟩

/-- The text that a source stands for, after so many characters that have been read. -/
def meaning (references : References) (skip : Nat) : List Char → List Char
  | [] => []
  | c :: rest =>
      if 0 < skip then meaning references (skip - 1) rest
      else if c = '\\' && rest.head?.any isPunctuation then
        rest.take 1 ++ meaning references 1 rest
      else
        match if c = '&' then references.read rest else none with
        | some (meant, length) => meant ++ meaning references length rest
        | none => c :: meaning references 0 rest

/-- A source without the characters that backslashes quote, and without these backslashes. -/
def unquoted (skip : Nat) : List Char → List Char
  | [] => []
  | c :: rest =>
      if 0 < skip then unquoted (skip - 1) rest
      else if c = '\\' && rest.head?.any isPunctuation then unquoted 1 rest
      else c :: unquoted 0 rest

/-- Parentheses come in pairs, inside so many open ones. -/
def isBalanced (depth : Nat) : List Char → Bool
  | [] => depth = 0
  | c :: rest =>
      if c = '(' then isBalanced (depth + 1) rest
      else if c = ')' then 0 < depth && isBalanced (depth - 1) rest
      else isBalanced depth rest

/-- A destination that stands for itself in a link, without signs around it. -/
structure IsBare (source : List Char) : Prop where
  nonempty : source ≠ []
  first : source.head? ≠ some '<'
  visible : ∀ c ∈ source, ' ' < c ∧ c ≠ '\x7f'
  balanced : isBalanced 0 (unquoted 0 source) = true

/-- The ways to write a destination. -/
inductive IsDestination (references : References) : (source meant : List Char) → Prop where
  | bare {source : List Char} (isBare : IsBare source) :
      IsDestination references source (meaning references 0 source)
  | pointed {body : List Char} (unbroken : ∀ c ∈ body, c ≠ '\n' ∧ c ≠ '\r')
      (closed : ∀ c ∈ unquoted 0 body, c ≠ '<' ∧ c ≠ '>') :
      IsDestination references ('<' :: (body ++ ['>'])) (meaning references 0 body)

def isGapChar (c : Char) : Bool :=
  c = ' ' || c = '\t' || c = '\n' || c = '\r'

/-- Blanks and tabulators with one line break at most. -/
def IsGap (text : List Char) : Prop :=
  ∃ before ending after, text = before ++ (ending ++ after) ∧
    ending ∈ ["".toList, "\n".toList, "\r".toList, "\r\n".toList] ∧
    ∀ c ∈ before ++ after, c = ' ' ∨ c = '\t'

/-- The title of a link: between two signs of a kind, which are quoted inside it, a text without
empty lines. -/
inductive IsTitle : List Char → Prop where
  | between {opening closing : Char} (body : List Char)
      (signs : (opening, closing) ∈ [('"', '"'), ('\'', '\''), ('(', ')')])
      (closed : ∀ c ∈ unquoted 0 body, c ≠ opening ∧ c ≠ closing)
      (filled : ∀ stretch, stretch <:+: body → stretch.all isGapChar → IsGap stretch) :
      IsTitle (opening :: (body ++ [closing]))

/-- What stands between the parentheses of a link: a destination, and a title behind it, each of
which can be left out. -/
inductive IsTarget (references : References) : (meant source : List Char) → Prop where
  | empty {gap : List Char} (isGap : IsGap gap) : IsTarget references [] gap
  | plain {before source meant after : List Char} (gapBefore : IsGap before)
      (destination : IsDestination references source meant) (gapAfter : IsGap after) :
      IsTarget references meant (before ++ (source ++ after))
  | titled {before source meant between title after : List Char} (gapBefore : IsGap before)
      (destination : IsDestination references source meant) (gapBetween : IsGap between)
      (apart : between ≠ []) (isTitle : IsTitle title) (gapAfter : IsGap after) :
      IsTarget references meant (before ++ (source ++ (between ++ (title ++ after))))

/-- A text is one inline link with this destination; its label has no brackets or backslashes. -/
def IsInlineLink (references : References) (label : String) (destination text : List Char) :
    Prop :=
  ∃ source, IsTarget references destination source ∧ text = link label.toList source

/-- A source is at least as long as what it stands for. -/
theorem length_meaning_le (references : References) (skip : Nat) (source : List Char) :
    (meaning references skip source).length ≤ source.length - skip := by
  induction source generalizing skip with
  | nil => simp [meaning]
  | cons c rest inductionHypothesis =>
    rw [meaning, List.length_cons]
    split
    · have later := inductionHypothesis (skip - 1)
      omega
    · split
      · have later := inductionHypothesis 1
        rw [List.length_append, List.length_take]
        omega
      · split
        · rename_i meant length found
          obtain ⟨-, read⟩ := Option.ite_none_right_eq_some.mp found
          have within := references.within read
          have longer := references.longer read
          have later := inductionHypothesis length
          rw [List.length_append]
          omega
        · have later := inductionHypothesis 0
          rw [List.length_cons]
          omega

theorem IsGap.nil : IsGap [] :=
  ⟨[], [], [], rfl, List.mem_cons_self, nofun⟩

theorem IsDestination.length_le {references : References} {source meant : List Char}
    (destination : IsDestination references source meant) : meant.length ≤ source.length := by
  cases destination with
  | bare => exact length_meaning_le references 0 source
  | @pointed body =>
    have long := length_meaning_le references 0 body
    simp only [List.length_cons, List.length_append]
    omega

theorem IsDestination.bare_of_length {references : References} {source meant : List Char}
    (destination : IsDestination references source meant)
    (short : source.length ≤ meant.length) :
    IsBare source ∧ meaning references 0 source = meant := by
  cases destination with
  | bare isBare => exact ⟨isBare, rfl⟩
  | @pointed body =>
    have long := length_meaning_le references 0 body
    simp only [List.length_cons, List.length_append, List.length_nil] at short
    omega

/-- What leads to a destination as long as itself is that destination, without gaps or a title. -/
theorem IsTarget.bare_of_length {references : References} {source meant : List Char}
    (isTarget : IsTarget references meant source) (nonempty : meant ≠ [])
    (short : source.length ≤ meant.length) :
    IsBare source ∧ meaning references 0 source = meant := by
  cases isTarget with
  | empty => contradiction
  | @plain before source meant after _ destination _ =>
    have least := destination.length_le
    simp only [List.length_append] at short
    obtain rfl : before = [] := List.length_eq_zero_iff.mp (by omega)
    obtain rfl : after = [] := List.length_eq_zero_iff.mp (by omega)
    rw [List.nil_append, List.append_nil]
    exact destination.bare_of_length (by omega)
  | @titled before source meant between title after _ destination _ apart =>
    have least := destination.length_le
    have some := List.length_pos_of_ne_nil apart
    simp only [List.length_append] at short
    omega

theorem link_injective {label source source' : List Char}
    (same : link label source = link label source') : source = source' := by
  simpa [link] using same

/-- A path makes an inline link that leads to it exactly if it is a bare destination whose
characters stand for themselves. -/
theorem isInlineLink_link_iff (references : References) (label : String) {target : List Char}
    (nonempty : target ≠ []) :
    IsInlineLink references label target (link label.toList target) ↔
      IsBare target ∧ meaning references 0 target = target := by
  constructor
  · rintro ⟨source, isTarget, same⟩
    obtain rfl := link_injective same
    exact isTarget.bare_of_length nonempty le_rfl
  · rintro ⟨isBare, same⟩
    have isTarget : IsTarget references (meaning references 0 target) ([] ++ (target ++ [])) :=
      .plain .nil (.bare isBare) .nil
    rw [same, List.nil_append, List.append_nil] at isTarget
    exact ⟨target, isTarget, rfl⟩

end Markdown

open Markdown Files

/-- The cells of variables and the links of the index as readers of Markdown see them. A cell shows
one code span exactly if its text is enclosable, which each text without backticks is. A link of the
index leads to the README of its module exactly if the path is a bare destination: nothing in it is
a blank or a control character, its parentheses come in pairs, it does not begin with a pointed
bracket, and backslashes and ampersands in it stand for themselves. -/
theorem cells_as_markup (references : References) (settings : Settings)
    (documented : DocumentedModule) (catalogue : Catalogue) :
    (∃ front inputs back, readme settings documented = front ++ (inputs ++ back) ∧
      IsTableSection "Variables" ["Name", "Type", "Description", "Default Value"]
        (documented.module.inputs.map fun v =>
          [code v.name.toList,
            code (if v.declaredType = "" then "not specified".toList else v.declaredType.toList),
            v.description.toList, code v.defaultValue.toList]) inputs ∧
      ∀ v ∈ documented.module.inputs,
        (IsCodeSpan (code v.name.toList) ↔ Enclosable v.name.toList) ∧
        (IsCodeSpan (code (if v.declaredType = "" then "not specified".toList
            else v.declaredType.toList)) ↔
          v.declaredType = "" ∨ Enclosable v.declaredType.toList) ∧
        (IsCodeSpan (code v.defaultValue.toList) ↔ Enclosable v.defaultValue.toList)) ∧
    (∃ front modules, index settings catalogue = front ++ modules ∧
      IsTableSection "Modules" ["Module", "Description", "Link"]
        ((catalogue.filter (·.2.module.header.title ≠ "")).map fun entry =>
          [entry.2.module.header.title.toList, entry.2.module.header.description.toList,
            link "more details".toList (below entry.1.toList settings.readmeName.toList)])
        modules ∧
      ∀ entry ∈ catalogue,
        let target := below entry.1.toList settings.readmeName.toList
        IsInlineLink references "more details" target (link "more details".toList target) ↔
          IsBare target ∧ meaning references 0 target = target) := by
  constructor
  · refine ⟨_, inputs documented.module, outputs documented.module, List.append_assoc _ _ _,
      inputs_section documented.module, fun v _ => ⟨isCodeSpan_code_iff _, ?_,
        isCodeSpan_code_iff _⟩⟩
    by_cases untyped : v.declaredType = ""
    · rw [if_pos untyped, isCodeSpan_code_iff]
      have shown : Enclosable "not specified".toList :=
        enclosable_of_no_tick (by decide) (by decide)
      exact iff_of_true shown (.inl untyped)
    · rw [if_neg untyped, isCodeSpan_code_iff, or_iff_right untyped]
  · refine ⟨_, _, List.append_assoc _ _ _, modules_section settings catalogue, fun entry _ => ?_⟩
    exact isInlineLink_link_iff references "more details" (by simp [below])

/-- A module in a folder with a blank in its name, with a backtick for a default. -/
def markupTree : FileSystem :=
  ⟨.folder [("repo", .folder [("modules", .folder [("a b", .folder [("main.tf",
    .file (Text.Utf8.encode
      "/*\ntitle: A\ndesc: B.\n*/\nvariable \"x\" \x7b default = \"a`b\" \x7d\n".toList))])])])],
    []⟩

/-- For a blank in the name of its folder the index has no link to a module, and for a backtick in
the default of its variable the README has no code span. -/
theorem cells_without_markup :
    ∃ catalogue, Scan.run Settings.default markupTree "repo".toList .none = .ok catalogue ∧
      ∃ entry ∈ catalogue, entry.2.module.header.title ≠ "" ∧
        (∀ references, ¬ IsInlineLink references "more details" "modules/a b/README.md".toList
          (link "more details".toList (below entry.1.toList "README.md".toList))) ∧
        ∃ v ∈ entry.2.module.inputs, v.defaultValue ≠ "" ∧
          ¬ IsCodeSpan (code v.defaultValue.toList) := by
  have scanned : Scan.run Settings.default markupTree "repo".toList .none =
      .ok [("modules/a b", ⟨⟨"modules/a b", ⟨"A", "B.", [], []⟩,
        [⟨"x", "", "", "a`b", true⟩], []⟩, []⟩)] :=
    Except.toOption_eq_some.mp (by decide +kernel)
  refine ⟨_, scanned, _, List.mem_cons_self, by decide, fun references isLink => ?_, _,
    List.mem_cons_self, by decide, fun isSpan => ?_⟩
  · obtain ⟨isBare, -⟩ := (isInlineLink_link_iff references "more details" (by decide)).mp isLink
    exact absurd (isBare.visible ' ' (by decide)) (by decide)
  · obtain ⟨length, between, same, apart⟩ := isSpan.closed
    obtain ⟨rfl, same⟩ : length = 1 ∧ between ++ [length] = [1, 1] := by
      rw [show runs (code "a`b".toList) = [1, 1, 1] by decide] at same
      exact ⟨(List.cons.inj same).1.symm, (List.cons.inj same).2.symm⟩
    cases between with
    | nil => cases same
    | cons inside between =>
      obtain ⟨rfl, -⟩ := List.cons.inj same
      exact apart List.mem_cons_self

end TerraDoc.Docs
