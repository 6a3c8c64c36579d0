import TerraDoc.Proofs.FileTracking
import TerraDoc.Proofs.LiteralParts
import TerraDoc.Proofs.QuotedReading

namespace TerraDoc.Hcl

open Quoted

namespace Expr

/-- Every quoted string in an expression was read between quotes. -/
def QuotesRead (e : Expr) : Prop :=
  ∀ slice, Within (.quoted slice) e → InQuotes slice.text

namespace QuotesRead

theorem of_parts {e : Expr} (self : ∀ slice, e = .quoted slice → InQuotes slice.text)
    (parts : ∀ part, Part part e → part.QuotesRead) : e.QuotesRead := by
  intro slice within
  cases within with
  | self => exact self slice rfl
  | step direct deeper => exact parts _ direct slice deeper

theorem heredocTemplate {slice : Slice} {inside : List Expr}
    (all : ∀ e ∈ inside, e.QuotesRead) : (Expr.heredocTemplate slice inside).QuotesRead :=
  of_parts nofun fun _ (.heredocTemplate member) => all _ member

theorem tuple {slice : Slice} {items : List Expr} (all : ∀ e ∈ items, e.QuotesRead) :
    (Expr.tuple slice items).QuotesRead :=
  of_parts nofun fun _ (.item member) => all _ member

theorem object {slice : Slice} {elements : List (Expr × Expr)}
    (all : ∀ element ∈ elements, element.1.QuotesRead ∧ element.2.QuotesRead) :
    (Expr.object slice elements).QuotesRead :=
  of_parts nofun fun
    | _, .key member _ => (all _ member).1
    | _, .element member => (all _ member).2

theorem call {slice function : Slice} {arguments : List Expr} {expanded : Bool}
    (all : ∀ e ∈ arguments, e.QuotesRead) :
    (Expr.call slice function arguments expanded).QuotesRead :=
  of_parts nofun fun _ (.argument member) => all _ member

theorem unary {slice : Slice} {op : UnaryOp} {operand : Expr} (read : operand.QuotesRead) :
    (Expr.unary slice op operand).QuotesRead :=
  of_parts nofun fun _ .operand => read

theorem compound {slice : Slice} {form : Form} {inside : List Expr}
    (all : ∀ e ∈ inside, e.QuotesRead) : (Expr.compound slice form inside).QuotesRead :=
  of_parts nofun fun _ (.inside member) => all _ member

theorem parens {slice : Slice} {inner : Expr} (read : inner.QuotesRead) :
    (Expr.parens slice inner).QuotesRead :=
  of_parts nofun fun _ .inner => read

end QuotesRead

end Expr

namespace Gives

theorem each {α : Type} {step : Reader (Option α)} {good : α → Prop}
    (gives : ∀ c, Gives step c fun found _ => ∀ a ∈ found, good a) (bound : Nat) (c : Cursor) :
    Gives (Reading.repeated bound step) c fun list _ => ∀ a ∈ list, good a := by
  induction bound generalizing c with
  | zero => exact failure
  | succ bound ih =>
    refine bind (gives c) fun found d here => ?_
    cases found with
    | none => exact pure (by simp)
    | some a =>
      refine bind (ih d) fun others e later => pure ?_
      exact List.forall_mem_cons.mpr ⟨here a rfl, later⟩

theorem apart {α : Type} {reader : Reader α} {good : α → Prop}
    (gives : ∀ c, Gives reader c fun a _ => good a) (c : Cursor) :
    Gives reader.apart c fun a _ => good a.1 := by
  intro a d run
  obtain ⟨⟨b, there⟩, taken, same⟩ := Option.bind_eq_some_iff.mp run
  cases same
  exact gives _ b there taken

end Gives

/-- Every quoted string inside a part of a template was read between quotes. -/
def Part.QuotesRead (part : Part) : Prop :=
  ∀ e ∈ part.inside, e.QuotesRead

theorem Part.inside_quotesRead {stretches : List (List Part)}
    (all : ∀ parts ∈ stretches, ∀ part ∈ parts, part.QuotesRead) :
    ∀ e ∈ stretches.flatten.flatMap Part.inside, e.QuotesRead := by
  intro e member
  obtain ⟨part, member, inside⟩ := List.mem_flatMap.mp member
  obtain ⟨parts, stretch, member⟩ := List.mem_flatten.mp member
  exact all parts stretch part member e inside

namespace Gives

section Inside

variable {expression : Reader Expr}
  (inner : ∀ c, Gives expression c fun e _ => e.QuotesRead)

include inner

theorem interpolation (c : Cursor) :
    Gives (Reader.interpolation expression) c fun part _ => part.QuotesRead := by
  refine after fun _ _ => after fun closes d => ?_
  split
  · exact after fun _ _ => pure nofun
  · refine bind (inner d) fun e _ read => after fun _ _ => pure ?_
    exact List.forall_mem_singleton.mpr read

theorem directive (c : Cursor) :
    Gives (Reader.directive expression) c fun part _ => part.QuotesRead := by
  have closed (part : Part) (c : Cursor) (read : part.QuotesRead) :
      Gives (do
          Reader.closing
          return part) c fun part _ => part.QuotesRead :=
    after fun _ _ => pure read
  refine after fun _ _ => after fun tag d => ?_
  dsimp only
  split
  · refine after fun _ d => bind (inner d) fun _ _ read => bind (pure ?_) closed
    exact List.forall_mem_singleton.mpr read
  · refine bind (inner d) fun _ _ read => bind (pure ?_) closed
    exact List.forall_mem_singleton.mpr read
  · exact bind (pure nofun) closed
  · exact bind (pure nofun) closed
  · exact bind (pure nofun) closed
  · exact never

theorem signed (sign : Char) (text : List Char) (c : Cursor) :
    Gives (Reader.signed expression sign text) c
      fun parts _ => ∀ part ∈ parts, part.QuotesRead := by
  unfold Reader.signed
  split
  · refine after fun _ d => ?_
    split
    · exact bind (interpolation inner d) fun _ _ read => pure (List.forall_mem_singleton.mpr read)
    · exact bind (directive inner d) fun _ _ read => pure (List.forall_mem_singleton.mpr read)
  all_goals exact after fun _ _ => pure nofun

theorem quotedPart (c : Cursor) :
    Gives (Reader.quotedPart expression) c
      fun found _ => ∀ parts ∈ found, ∀ part ∈ parts, part.QuotesRead := by
  have signed (sign : Char) (text : List Char) (c : Cursor) :
      Gives (do return some (← Reader.signed expression sign text)) c
        fun found _ => ∀ parts ∈ found, ∀ part ∈ parts, part.QuotesRead :=
    bind (signed inner sign text c) fun _ _ read => pure (by simpa using read)
  refine get ?_
  split
  · exact pure nofun
  · exact signed _ _ _
  · exact signed _ _ _
  · split
    · exact after fun _ _ => pure (by simp)
    · exact failure
  · exact after fun _ _ => pure (by simp)
  · exact failure

theorem quoted (bound : Nat) {c : Cursor} {first : List Char} (opening : c.rest = '"' :: first) :
    Gives (Reader.quoted bound expression) c fun e _ => e.QuotesRead := by
  have parts : Gives (Reader.quoted bound expression) c
      fun e _ => ∀ part, Expr.Part part e → part.QuotesRead := by
    refine get (take (bind (each (quotedPart inner) bound _) fun stretches d all => ?_))
    refine take (after fun slice d => ?_)
    split
    · exact after fun _ _ => pure nofun
    · split
      · exact pure fun _ (.quotedTemplate member) => Part.inside_quotesRead all _ member
      · exact failure
  exact ((quoted_inQuotes opening).and parts).mono fun _ _ read => .of_parts read.1 read.2

theorem heredocPart (marker : List Char) (c : Cursor) :
    Gives (Reader.heredocPart marker expression) c
      fun found _ => ∀ parts ∈ found, ∀ part ∈ parts, part.QuotesRead := by
  have signed (blanks : Nat) (sign : Char) (text : List Char) (c : Cursor) :
      Gives (do
          Reader.take blanks
          return some (← Reader.signed expression sign text)) c
        fun found _ => ∀ parts ∈ found, ∀ part ∈ parts, part.QuotesRead :=
    after fun _ d => bind (signed inner sign text d) fun _ _ read => pure (by simpa using read)
  have text (count : Nat) (c : Cursor) :
      Gives (do
          Reader.take count
          return some [] : Reader (Option (List Part))) c
        fun found _ => ∀ parts ∈ found, ∀ part ∈ parts, part.QuotesRead :=
    after fun _ _ => pure (by simp)
  refine get ?_
  dsimp only
  split
  · exact failure
  · exact signed _ _ _ _
  · exact signed _ _ _ _
  · split
    · split
      · exact text _ _
      · split
        · exact pure nofun
        · exact text _ _
    · exact text _ _

theorem heredoc (bound : Nat) (c : Cursor) :
    Gives (Reader.heredoc bound expression) c fun e _ => e.QuotesRead := by
  have body (marker : List Char) (c : Cursor) := apart (each (heredocPart inner marker) bound) c
  refine get (after fun _ _ => get (after fun _ d => get ?_))
  dsimp only
  split
  · exact never
  · refine after fun _ d => get (bind (body _ d) fun stretches d all => get ?_)
    refine after fun _ _ => after fun _ _ => after fun _ _ => after fun _ _ => after fun _ d => ?_
    split
    · exact pure (.of_parts nofun nofun)
    · split
      · exact pure (.heredocTemplate (Part.inside_quotesRead all))
      · exact failure

theorem listRest (bound : Nat) (close : Char) (c : Cursor) :
    Gives (Reader.listRest bound expression close) c fun list _ => ∀ e ∈ list, e.QuotesRead := by
  refine each (fun c => after fun more d => ?_) bound c
  split
  · refine after fun text d => ?_
    split
    · split
      · exact pure nofun
      · exact bind (inner d) fun _ _ read => pure (by simpa using read)
    · exact failure
  · exact pure nofun

theorem forIntro (c : Cursor) :
    Gives (Reader.forIntro expression) c fun e _ => e.QuotesRead :=
  after fun _ _ => after fun _ d => bind (inner d) fun _ _ read => after fun _ _ => pure read

theorem forCondition (c : Cursor) :
    Gives (Reader.forCondition expression) c fun list _ => ∀ e ∈ list, e.QuotesRead := by
  refine after fun found d => ?_
  split
  · exact after fun _ d => bind (inner d) fun _ _ read => pure (List.forall_mem_singleton.mpr read)
  · exact pure nofun

theorem tuple (bound : Nat) (c : Cursor) :
    Gives (Reader.tuple bound expression) c fun e _ => e.QuotesRead := by
  refine get (after fun _ _ => after fun repetition d => ?_)
  split
  · refine bind (forIntro inner d) fun collection d first => bind (inner d) fun item d second => ?_
    refine bind (forCondition inner d) fun condition d third => after fun _ _ => after fun _ _ => ?_
    refine pure (.compound ?_)
    exact List.forall_mem_cons.mpr ⟨first, List.forall_mem_cons.mpr ⟨second, third⟩⟩
  · refine after fun empty d => ?_
    split
    · exact after fun _ _ => pure (.tuple nofun)
    · refine bind (inner d) fun e d first => bind (listRest inner bound ']' d) fun _ d others => ?_
      refine after fun _ _ => after fun _ _ => pure (.tuple ?_)
      exact List.forall_mem_cons.mpr ⟨first, others⟩

theorem element (c : Cursor) :
    Gives (Reader.element expression) c
      fun element _ => element.1.QuotesRead ∧ element.2.QuotesRead := by
  refine bind (inner c) fun key d first => after fun colon d => ?_
  have value (d : Cursor) : Gives (do return (key, ← expression)) d
      fun element _ => element.1.QuotesRead ∧ element.2.QuotesRead :=
    bind (inner d) fun _ _ second => pure ⟨first, second⟩
  split
  · exact after fun _ d => value d
  · exact value d

theorem elementsRest (bound : Nat) (c : Cursor) :
    Gives (Reader.elementsRest bound expression) c
      fun list _ => ∀ element ∈ list, element.1.QuotesRead ∧ element.2.QuotesRead := by
  refine each (fun c => after fun _ _ => after fun text d => ?_) bound c
  split
  · exact pure nofun
  · exact bind (element inner d) fun _ _ read => pure (by simpa using read)

theorem object (bound : Nat) (c : Cursor) :
    Gives (Reader.object bound expression) c fun e _ => e.QuotesRead := by
  refine get (after fun _ _ => after fun repetition d => ?_)
  split
  · refine bind (forIntro inner d) fun _ d first => bind (inner d) fun _ d key => ?_
    refine after fun _ d => bind (inner d) fun _ d value => after fun _ d => ?_
    refine bind (forCondition inner d) fun _ _ rest => after fun _ _ => after fun _ _ => pure ?_
    exact .compound (List.forall_mem_cons.mpr ⟨first,
      List.forall_mem_cons.mpr ⟨key, List.forall_mem_cons.mpr ⟨value, rest⟩⟩⟩)
  · refine after fun empty d => ?_
    split
    · exact after fun _ _ => pure (.object nofun)
    · refine bind (element inner d) fun _ d first => ?_
      refine bind (elementsRest inner bound d) fun _ _ others => ?_
      refine after fun _ _ => after fun _ _ => pure (.object ?_)
      exact List.forall_mem_cons.mpr ⟨first, others⟩

theorem arguments (bound : Nat) (c : Cursor) :
    Gives (Reader.arguments bound expression) c fun list _ => ∀ e ∈ list.1, e.QuotesRead := by
  refine after fun _ _ => after fun empty d => ?_
  split
  · exact pure nofun
  · refine bind (inner d) fun _ d first => bind (listRest inner bound ')' d) fun _ _ others => ?_
    exact after fun _ _ => after fun _ _ => pure (List.forall_mem_cons.mpr ⟨first, others⟩)

theorem named (bound : Nat) (c : Cursor) :
    Gives (Reader.named bound expression) c fun e _ => e.QuotesRead := by
  refine after fun _ _ => after fun word _ => ?_
  split
  · exact pure (.of_parts nofun nofun)
  · exact pure (.of_parts nofun nofun)
  · exact pure (.of_parts nofun nofun)
  · refine after fun text d => ?_
    split
    · exact bind (arguments inner bound d) fun _ _ all => after fun _ _ => pure (.call all)
    · exact pure (.of_parts nofun nofun)

theorem primary (bound : Nat) (c : Cursor) :
    Gives (Reader.primary bound expression) c fun e _ => e.QuotesRead := by
  refine mark fun d => ?_
  split
  · refine after fun _ d => bind (inner d) fun _ _ read => after fun _ _ => after fun _ _ => ?_
    exact pure (.parens read)
  · exact tuple inner bound d
  · exact object inner bound d
  · exact quoted inner bound ‹_›
  · exact heredoc inner bound d
  · split
    · exact after fun _ _ => pure (.of_parts nofun nofun)
    · exact named inner bound d

theorem operand (bound : Nat) (c : Cursor) :
    Gives (Reader.operand expression bound) c fun e _ => e.QuotesRead := by
  induction bound generalizing c with
  | zero => exact failure
  | succ bound ih =>
    refine mark fun d => ?_
    split
    · exact after fun _ d => bind (ih d) fun _ _ read => after fun _ _ => pure (.unary read)
    · exact after fun _ d => bind (ih d) fun _ _ read => after fun _ _ => pure (.unary read)
    · exact primary inner (bound + 1) d

theorem link (bound : Nat) (c : Cursor) :
    Gives (Reader.link bound expression) c
      fun found _ => ∀ list ∈ found, ∀ e ∈ list, e.QuotesRead := by
  refine after fun text d => ?_
  split
  · exact pure nofun
  · exact after fun _ _ => pure (by simp)
  · refine after fun _ _ => after fun text _ => ?_
    split
    · exact after fun _ _ => after fun _ _ => pure (by simp)
    · exact after fun _ _ => pure (by simp)
  · exact after fun _ _ => pure (by simp)
  · refine after fun _ d => bind (inner d) fun _ _ read => after fun _ _ => pure ?_
    simpa using read
  · split
    · exact after fun _ d => bind (operand inner bound d) fun _ _ read => pure (by simpa using read)
    · exact pure nofun

theorem term (bound : Nat) (c : Cursor) :
    Gives (Reader.term bound expression) c fun e _ => e.QuotesRead := by
  refine mark fun d => bind (operand inner bound d) fun e d first => ?_
  refine bind (each (link inner bound) bound d) fun links d others => ?_
  split
  · exact pure first
  · refine after fun _ _ => pure (.compound (List.forall_mem_cons.mpr ⟨first, fun e member => ?_⟩))
    obtain ⟨list, link, member⟩ := List.mem_flatten.mp member
    exact others list link e member

theorem expressionWith (bound : Nat) (c : Cursor) :
    Gives (Reader.expressionWith bound expression) c fun e _ => e.QuotesRead := by
  refine mark fun d => bind (term inner bound d) fun _ _ first => after fun conditional d => ?_
  split
  · refine bind (inner d) fun _ _ second => after fun _ d => bind (inner d) fun _ _ third => ?_
    refine after fun _ _ => pure (.compound ?_)
    simp only [List.forall_mem_cons]
    exact ⟨first, second, third, nofun⟩
  · exact pure first

end Inside

theorem expression (bound : Nat) (c : Cursor) :
    Gives (Reader.expression bound) c fun e _ => e.QuotesRead := by
  induction bound generalizing c with
  | zero => exact failure
  | succ bound ih => exact expressionWith ih bound c

end Gives

/-- A quoted string stands in a value at some depth, or is a label, here or in a body inside. -/
inductive Item.Quotes (slice : Slice) : Item → Prop where
  | value {name : Slice} {value : Expr} (within : Expr.Within (.quoted slice) value) :
      Quotes slice (.attr name value)
  | label {kind : Slice} {labels : List Label} {body : List Item}
      (member : Label.quoted slice ∈ labels) : Quotes slice (.block kind labels body)
  | body {kind : Slice} {labels : List Label} {body : List Item} {item : Item}
      (member : item ∈ body) (deeper : Quotes slice item) : Quotes slice (.block kind labels body)

/-- A quoted string or label stands somewhere in a file. -/
def Content.Quotes (slice : Slice) : Content → Prop
  | .body items => ∃ item ∈ items, item.Quotes slice
  | .object value => Expr.Within (.quoted slice) value

/-- Every quoted string and label of an item was read between quotes. -/
def Item.QuotesRead (item : Item) : Prop :=
  ∀ slice, item.Quotes slice → InQuotes slice.text

theorem Item.QuotesRead.attr {name : Slice} {value : Expr} (read : value.QuotesRead) :
    (Item.attr name value).QuotesRead :=
  fun slice (.value within) => read slice within

theorem Item.QuotesRead.block {kind : Slice} {labels : List Label} {body : List Item}
    (labelled : ∀ label ∈ labels, ∀ slice, label = .quoted slice → InQuotes slice.text)
    (inside : ∀ item ∈ body, item.QuotesRead) : (Item.block kind labels body).QuotesRead := by
  rintro slice (_ | member | ⟨member, deeper⟩)
  · exact labelled _ member slice rfl
  · exact inside _ member slice deeper

namespace Gives

theorem label (bound : Nat) (c : Cursor) :
    Gives (Reader.label bound) c
      fun found _ => ∀ label ∈ found, ∀ slice, label = .quoted slice → InQuotes slice.text := by
  refine mark fun d => ?_
  split
  · exact pure nofun
  · refine bind (quotedLabel_inQuotes ‹_›) fun _ _ read => pure ?_
    rintro _ ⟨⟩ _ ⟨⟩
    exact read
  · refine after fun _ _ => pure ?_
    rintro _ ⟨⟩ _ ⟨⟩

theorem item (bound : Nat) {inner : Reader (List Item)}
    (body : ∀ c, Gives inner c fun items _ => ∀ item ∈ items, item.QuotesRead) (c : Cursor) :
    Gives (Reader.item bound inner) c fun item _ => item.QuotesRead := by
  refine after fun kind _ => after fun equals d => ?_
  split
  · exact bind (expression bound d) fun _ _ read => pure (.attr read)
  · refine bind (each (label bound) bound d) fun labels _ labelled => after fun _ d => ?_
    exact bind (body d) fun _ _ inside => after fun _ _ => pure (.block labelled inside)

theorem body (bound : Nat) (c : Cursor) :
    Gives (Reader.body bound) c fun items _ => ∀ item ∈ items, item.QuotesRead := by
  induction bound generalizing c with
  | zero => exact failure
  | succ bound ih =>
    refine each (fun c => after fun text d => ?_) _ c
    split
    · exact pure nofun
    · exact pure nofun
    · exact bind (item bound ih d) fun _ _ read => pure (by simpa using read)

theorem content (bound : Nat) (c : Cursor) :
    Gives (Reader.content bound) c
      fun content _ => ∀ slice, content.Quotes slice → InQuotes slice.text := by
  refine after fun text d => ?_
  split
  · refine after fun _ d => bind (object (expression bound) bound d) fun e _ read => ?_
    split
    · exact pure read
    · exact failure
  · refine bind (body bound d) fun _ _ read => pure fun slice ⟨item, member, quotes⟩ => ?_
    exact read item member slice quotes

end Gives

theorem readFile?_inQuotes {source : List Char} {file : File} (read : readFile? source = some file)
    {slice : Slice} (quotes : file.content.Quotes slice) : InQuotes slice.text := by
  obtain ⟨content, c, ran, -, rfl⟩ := readFile?_cases read
  obtain ⟨found, d, taken, ended⟩ := Reader.bind_run ran
  obtain ⟨_, e, -, ended⟩ := Reader.bind_run ended
  cases ended
  exact Gives.content _ _ _ d taken slice quotes

/-- Whatever is quoted in a file, at any depth, is decoded exactly if it is made of plain characters
and of escapes whose codes name characters. Otherwise the error is about a code: letters that mean
nothing, codes that are too short and codes with a sign stand in no file that is read. -/
theorem quoted_decoded {source : List Char} {file : File} (read : parse? source = some file)
    {slice : Slice} (quotes : file.content.Quotes slice) :
    ∃ inner, slice.text = '"' :: (inner ++ ['"']) ∧
      (WellFormed false inner ∧ (∃ text, decode slice.text = .ok text) ∨
        ¬ WellFormed false inner ∧ decode slice.text = .error (.unicodeEscape slice.string)) := by
  obtain ⟨inner, quoted, between⟩ := readFile?_inQuotes read quotes
  exact ⟨inner, quoted, by simpa only [Slice.string, quoted] using between.decode_cases⟩

/-- A code with a sign, which decoding alone would take. -/
example : (parse? "x = \"\\u+041\"".toList).isNone = true := by decide +kernel

end TerraDoc.Hcl
