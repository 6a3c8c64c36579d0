import Mathlib.Data.List.Forall2
import TerraDoc.Hcl.Token
import TerraDoc.Proofs.ByteOrder
import TerraDoc.Proofs.CharacterClasses
import TerraDoc.Proofs.HeaderGrammar
import TerraDoc.Proofs.ReleaseTags

/-!
Which commits are read from the log that git prints. A separator between the fields of a record is
found whatever stands in a message; a separator between records is taken for one wherever it
stands.
-/

namespace TerraDoc.Text

theorem splitOn_append_of_not_mem {separator : Char} {front : List Char}
    (apart : separator ∉ front) (text : List Char) :
    (front ++ text).splitOn separator = (text.splitOn separator).modifyHead (front ++ ·) := by
  obtain ⟨first, more, split⟩ := List.exists_cons_of_ne_nil (List.splitOn_ne_nil separator text)
  induction front with
  | nil => simp [split]
  | cons c front inductionHypothesis =>
    rw [List.mem_cons, not_or] at apart
    have other : ¬ (c == separator) = true := fun same => apart.1 (beq_iff_eq.mp same).symm
    rw [List.cons_append, List.splitOn_cons_eq_if_modifyHead, if_neg other,
      inductionHypothesis apart.2, split]
    rfl

/-- A piece after the first one stands behind a separator. -/
theorem eq_append_of_mem_tail_splitOn {separator : Char} {text piece : List Char}
    (member : piece ∈ (text.splitOn separator).tail) :
    ∃ before after, text = before ++ separator :: (piece ++ after) := by
  induction size : text.length using Nat.strongRecOn generalizing text with
  | ind length inductionHypothesis =>
    by_cases cut : separator ∈ text
    · obtain ⟨before, rest, rfl, apart⟩ := List.eq_append_cons_of_mem cut
      rw [List.splitOn_append_cons_self_of_not_mem apart, List.tail_cons] at member
      obtain ⟨first, more, split⟩ :=
        List.exists_cons_of_ne_nil (List.splitOn_ne_nil separator rest)
      rw [split, List.mem_cons] at member
      rcases member with rfl | later
      · -- The first piece of the rest stands at its start.
        have whole : [separator].intercalate (rest.splitOn separator) = rest :=
          List.intercalate_splitOn separator
        rw [split] at whole
        cases more with
        | nil => exact ⟨before, [], by rw [← whole]; simp⟩
        | cons next more =>
          exact ⟨before, separator :: [separator].intercalate (next :: more),
            by rw [← whole, List.intercalate_cons_cons]; simp⟩
      · have shorter : rest.length < length := by
          rw [← size, List.length_append, List.length_cons]
          omega
        have among : piece ∈ (rest.splitOn separator).tail := by
          rw [split]
          exact later
        obtain ⟨between, after, same⟩ := inductionHypothesis _ shorter among rfl
        exact ⟨before ++ separator :: between, after, by rw [same]; simp⟩
    · rw [List.splitOn_eq_singleton cut] at member
      cases member

theorem trim_eq_nil_iff (text : List Char) : trim text = [] ↔ ∀ c ∈ text, isBlank c = true := by
  have trimmed : trim text = (text.dropWhile isBlank).rdropWhile isBlank := rfl
  rw [trimmed, List.rdropWhile_eq_nil_iff]
  constructor
  · intro rest c member
    rw [← List.takeWhile_append_dropWhile (p := isBlank) (l := text), List.mem_append] at member
    rcases member with lead | later
    · exact List.mem_takeWhile_imp lead
    · exact rest c later
  · intro blank c member
    exact blank c (List.dropWhile_sublist isBlank |>.mem member)

end TerraDoc.Text

namespace TerraDoc.Git

/-- A commit as git holds it. -/
structure Logged where
  hash : List Char
  message : List Char
deriving DecidableEq, Repr

namespace Logged

/-- What git prints about a commit. -/
def record (commit : Logged) : List Char :=
  commit.hash ++ fieldSeparator :: (commit.message ++ [recordSeparator, '\n'])

/-- The part of a message before a record separator. -/
def body (commit : Logged) : List Char :=
  (commit.message.splitOn recordSeparator).headD []

/-- The records that stand in a message behind a record separator. -/
def forged (commit : Logged) : List (List Char × List Char) :=
  (commit.message.splitOn recordSeparator).tail.filterMap recordOf?

/-- A hash that stands out from what is around it. -/
structure Solid (commit : Logged) : Prop where
  named : commit.hash ≠ []
  visible : ∀ c ∈ commit.hash, Text.isBlank c = false
  apart : fieldSeparator ∉ commit.hash ∧ recordSeparator ∉ commit.hash

/-- A hash as git spells it. -/
structure Hexadecimal (commit : Logged) : Prop where
  named : commit.hash ≠ []
  digits : ∀ c ∈ commit.hash, Hcl.isHexDigit c = true

/-- A message that holds a record of its own: a record separator and, before the next one, a text
that is not all white space and a field separator. -/
def Forges (commit : Logged) : Prop :=
  ∃ before hash after, commit.message =
      before ++ recordSeparator :: (hash ++ fieldSeparator :: after) ∧
    recordSeparator ∉ hash ∧ fieldSeparator ∉ hash ∧ ∃ c ∈ hash, Text.isBlank c = false

end Logged

def logText (logged : List Logged) : List Char :=
  logged.flatMap Logged.record

namespace Logged

/-- The hash and the message that are shown for a commit. -/
def shown (commit : Logged) : List Char × List Char :=
  (commit.hash, Text.trimEndWhile isLineBreak commit.body)

theorem Hexadecimal.solid {commit : Logged} (hexadecimal : commit.Hexadecimal) : commit.Solid := by
  have other : ∀ c, Hcl.isHexDigit c = true →
      Text.isBlank c = false ∧ c ≠ fieldSeparator ∧ c ≠ recordSeparator := by
    intro c digit
    have ascii : c.toNat < 128 := by
      simp only [Hcl.isHexDigit, Bool.or_eq_true, Bool.and_eq_true, decide_eq_true_eq] at digit
      rcases digit with (decimal | small) | capital
      · exact Nat.lt_of_le_of_lt (digit_range decimal).2 (by decide)
      · exact Nat.lt_of_le_of_lt small.2 (by decide)
      · exact Nat.lt_of_le_of_lt capital.2 (by decide)
    revert digit
    exact ascii_cases (fun c => Hcl.isHexDigit c = true →
      Text.isBlank c = false ∧ c ≠ fieldSeparator ∧ c ≠ recordSeparator) (by decide) ascii
  exact ⟨hexadecimal.named, fun c member => (other c (hexadecimal.digits c member)).1,
    fun member => (other _ (hexadecimal.digits _ member)).2.1 rfl,
    fun member => (other _ (hexadecimal.digits _ member)).2.2 rfl⟩

end Logged

theorem isBlank_of_isLineBreak {c : Char} (lineBreak : isLineBreak c = true) :
    Text.isBlank c = true := by
  rw [isLineBreak, Bool.or_eq_true, beq_iff_eq, beq_iff_eq] at lineBreak
  rcases lineBreak with rfl | rfl <;> rfl

theorem recordOf?_breaks {breaks : List Char} (only : ∀ c ∈ breaks, isLineBreak c = true) :
    recordOf? breaks = none := by
  rw [recordOf?, List.dropWhile_eq_nil_iff.mpr only]
  rfl

/-- A text is read as a record if it has a field separator and, before the first one, more than
white space. -/
theorem recordOf?_isSome_iff (record : List Char) :
    (recordOf? record).isSome ↔ ∃ hash message, record = hash ++ fieldSeparator :: message ∧
      fieldSeparator ∉ hash ∧ ∃ c ∈ hash, Text.isBlank c = false := by
  constructor
  · intro found
    rw [recordOf?] at found
    split at found
    · cases found
    · rename_i hash message fields
      obtain ⟨split, clear⟩ := (Text.cut_eq_some_iff _ _ _ _).mp fields
      split at found
      · cases found
      · rename_i nonempty
        rw [List.isEmpty_iff, Text.trim_eq_nil_iff] at nonempty
        push Not at nonempty
        obtain ⟨c, member, visible⟩ := nonempty
        refine ⟨record.takeWhile isLineBreak ++ hash, message, ?_, ?_, c,
          List.mem_append_right _ member, by simpa using visible⟩
        · rw [List.append_assoc, ← split, List.takeWhile_append_dropWhile]
        · intro here
          rcases List.mem_append.mp here with lineBreak | later
          · exact absurd (List.mem_takeWhile_imp lineBreak) (by decide)
          · exact clear later
  · rintro ⟨hash, message, rfl, clear, c, member, visible⟩
    have kept : c ∈ hash.dropWhile isLineBreak := by
      rw [← List.takeWhile_append_dropWhile (p := isLineBreak) (l := hash)] at member
      rcases List.mem_append.mp member with lineBreak | later
      · have blank := isBlank_of_isLineBreak (List.mem_takeWhile_imp lineBreak)
        rw [visible] at blank
        cases blank
      · exact later
    have start : (hash ++ fieldSeparator :: message).dropWhile isLineBreak =
        hash.dropWhile isLineBreak ++ fieldSeparator :: message := by
      rw [List.dropWhile_append, if_neg]
      rw [List.isEmpty_iff]
      exact List.ne_nil_of_mem kept
    have fields := (Text.cut_eq_some_iff fieldSeparator _ (hash.dropWhile isLineBreak) message).mpr
      ⟨start, fun here => clear (List.dropWhile_sublist isLineBreak |>.mem here)⟩
    rw [recordOf?, fields]
    dsimp only
    rw [if_neg]
    · rfl
    · rw [List.isEmpty_iff, Text.trim_eq_nil_iff]
      intro blank
      rw [blank c kept] at visible
      cases visible

theorem Logged.Solid.recordOf?_eq {commit : Logged} (solid : commit.Solid) {breaks : List Char}
    (only : ∀ c ∈ breaks, isLineBreak c = true) (message : List Char) :
    recordOf? (breaks ++ (commit.hash ++ fieldSeparator :: message)) =
      some (commit.hash, Text.trimEndWhile isLineBreak message) := by
  have start : (commit.hash ++ fieldSeparator :: message).dropWhile isLineBreak =
      commit.hash ++ fieldSeparator :: message := by
    obtain ⟨c, rest, same⟩ := List.exists_cons_of_ne_nil solid.named
    have visible : Text.isBlank c = false :=
      solid.visible c (by rw [same]; exact List.mem_cons_self)
    have other : ¬ isLineBreak c = true := by
      intro lineBreak
      rw [isBlank_of_isLineBreak lineBreak] at visible
      cases visible
    rw [same, List.cons_append, List.dropWhile_cons_of_neg other]
  have fields := (Text.cut_eq_some_iff fieldSeparator _ commit.hash message).mpr
    ⟨rfl, solid.apart.1⟩
  have trimmed : Text.trim commit.hash = commit.hash :=
    Text.trim_eq_self commit.hash
      (fun c first => solid.visible c (List.mem_of_mem_head? first))
      (fun c last => solid.visible c (List.mem_of_mem_getLast? last))
  rw [recordOf?, List.dropWhile_append_of_pos only, start, fields]
  dsimp only
  rw [trimmed, if_neg (by simpa using solid.named)]

theorem Logged.splitOn_record {commit : Logged} (solid : commit.Solid) {breaks : List Char}
    (only : ∀ c ∈ breaks, isLineBreak c = true) (rest : List Char) :
    ((breaks ++ (commit.record ++ rest)).splitOn recordSeparator).filterMap recordOf? =
      commit.shown :: commit.forged ++
        (('\n' :: rest).splitOn recordSeparator).filterMap recordOf? := by
  have clear : recordSeparator ∉ breaks ++ (commit.hash ++ [fieldSeparator]) := by
    intro member
    rw [List.mem_append, List.mem_append, List.mem_singleton] at member
    rcases member with lineBreak | hash | field
    · exact absurd (only _ lineBreak) (by decide)
    · exact solid.apart.2 hash
    · cases field
  have shape : breaks ++ (commit.record ++ rest) =
      (breaks ++ (commit.hash ++ [fieldSeparator]) ++ commit.message) ++
        recordSeparator :: '\n' :: rest := by
    simp [Logged.record]
  obtain ⟨first, more, split⟩ :=
    List.exists_cons_of_ne_nil (List.splitOn_ne_nil recordSeparator commit.message)
  rw [shape, List.splitOn_append_cons_self, Text.splitOn_append_of_not_mem clear,
    List.filterMap_append, Logged.shown, Logged.body, Logged.forged, split]
  have here := solid.recordOf?_eq only first
  rw [List.modifyHead_cons, List.filterMap_cons_some (by simpa using here)]
  rfl

theorem filterMap_splitOn_logText {logged : List Logged} (solid : ∀ commit ∈ logged, commit.Solid)
    {breaks : List Char} (only : ∀ c ∈ breaks, isLineBreak c = true) :
    ((breaks ++ logText logged).splitOn recordSeparator).filterMap recordOf? =
      logged.flatMap fun commit => commit.shown :: commit.forged := by
  induction logged generalizing breaks with
  | nil =>
    have clear : recordSeparator ∉ breaks := fun member => absurd (only _ member) (by decide)
    rw [logText, List.flatMap_nil, List.append_nil, List.splitOn_eq_singleton clear,
      List.filterMap_cons_none (recordOf?_breaks only)]
    rfl
  | cons commit logged inductionHypothesis =>
    have feed : ∀ c ∈ ['\n'], isLineBreak c = true := by simp [isLineBreak]
    rw [logText, List.flatMap_cons, Logged.splitOn_record (solid _ List.mem_cons_self) only,
      List.flatMap_cons]
    congr 1
    exact inductionHypothesis (fun commit member => solid commit (List.mem_cons_of_mem _ member))
      feed

theorem Logged.forged_eq_nil_iff (commit : Logged) : commit.forged = [] ↔ ¬ commit.Forges := by
  rw [Logged.forged, List.filterMap_eq_nil_iff]
  constructor
  · rintro none ⟨before, hash, after, same, noRecord, noField, visible⟩
    have clear : recordSeparator ∉ hash ++ [fieldSeparator] := by
      intro member
      rcases List.mem_append.mp member with here | field
      · exact noRecord here
      · exact absurd (List.mem_singleton.mp field) (by decide)
    obtain ⟨start, between, split⟩ :=
      List.exists_cons_of_ne_nil (List.splitOn_ne_nil recordSeparator before)
    obtain ⟨first, more, split'⟩ :=
      List.exists_cons_of_ne_nil (List.splitOn_ne_nil recordSeparator after)
    have shape : hash ++ fieldSeparator :: after = hash ++ [fieldSeparator] ++ after := by simp
    have unread := none (hash ++ [fieldSeparator] ++ first) (by
      rw [same, List.splitOn_append_cons_self, split, shape,
        Text.splitOn_append_of_not_mem clear, split']
      exact List.mem_append_right _ List.mem_cons_self)
    have read := (recordOf?_isSome_iff (hash ++ [fieldSeparator] ++ first)).mpr
      ⟨hash, first, by simp, noField, visible⟩
    rw [unread] at read
    cases read
  · intro honest piece member
    by_contra found
    obtain ⟨hash, message, rfl, noField, visible⟩ :=
      (recordOf?_isSome_iff piece).mp (Option.isSome_iff_ne_none.mpr found)
    obtain ⟨before, after, same⟩ := Text.eq_append_of_mem_tail_splitOn member
    have clear := Text.not_mem_of_mem_splitOn (List.mem_of_mem_tail member)
    refine honest ⟨before, hash, message ++ after, ?_, ?_, noField, visible⟩
    · simpa using same
    · exact fun here => clear (List.mem_append_left _ here)

/-- The commit that a record is read as. -/
def commitOf (tags : Dictionary String) (record : List Char × List Char) : Commit :=
  { hash := String.ofList record.1
    message := String.ofList record.2
    tag := (tags.find? (String.ofList record.1)).getD "" }

/-- The commits that are read from the log, in order. -/
def commitsRead (tags : Dictionary String) (logged : List Logged) : List Commit :=
  logged.flatMap fun commit => (commit.shown :: commit.forged).map (commitOf tags)

theorem commits_logText (folder : String) (history : History) (errors : List UInt8)
    {logged : List Logged} (solid : ∀ commit ∈ logged, commit.Solid) :
    history.commits folder (.ended 0 (Text.Utf8.encode (logText logged)) errors) =
      .ok (commitsRead history.tags logged) := by
  have none : ∀ c ∈ ([] : List Char), isLineBreak c = true := by simp
  have records := filterMap_splitOn_logText solid none
  rw [List.nil_append] at records
  rw [History.commits, Query.outputOf, if_pos rfl, Text.Utf8.decodeLossy_encode]
  refine congrArg Except.ok ?_
  rw [commitsOf, records, commitsRead, ← List.map_flatMap]
  rfl

/-- A commit is shown with its whole hash and the tag of this hash, and with its message less the
line breaks at its end. -/
structure Shown (tags : Dictionary String) (logged : Logged) (commit : Commit) : Prop where
  hash : commit.hash = String.ofList logged.hash
  tag : commit.tag = (tags.find? (String.ofList logged.hash)).getD ""
  message : ∃ breaks, logged.message = commit.message.toList ++ breaks ∧
    ∀ c ∈ breaks, isLineBreak c = true
  ends : ∀ c ∈ commit.message.toList.getLast?, isLineBreak c = false

theorem commitOf_shown (tags : Dictionary String) {logged : Logged}
    (whole : recordSeparator ∉ logged.message) : Shown tags logged (commitOf tags logged.shown) := by
  have body : logged.body = logged.message := by
    rw [Logged.body, List.splitOn_eq_singleton whole]
    rfl
  have message : (commitOf tags logged.shown).message.toList =
      logged.message.rdropWhile isLineBreak := by
    rw [commitOf, String.toList_ofList, Logged.shown, body]
    rfl
  refine ⟨rfl, rfl, ⟨logged.message.rtakeWhile isLineBreak, ?_, ?_⟩, ?_⟩
  · rw [message, List.rdropWhile_append_rtakeWhile]
  · intro c member
    exact List.mem_rtakeWhile_imp member
  · rw [message]
    intro c last
    obtain ⟨nonempty, rfl⟩ := List.mem_getLast?_eq_getLast last
    simpa using List.rdropWhile_last_not isLineBreak logged.message nonempty

theorem Logged.not_forges {commit : Logged} (whole : recordSeparator ∉ commit.message) :
    ¬ commit.Forges := by
  rintro ⟨before, hash, after, same, -⟩
  rw [same] at whole
  exact whole (List.mem_append_right _ List.mem_cons_self)

section

variable (tags : Dictionary String)

theorem shown_sublist_commitsRead (logged : List Logged) :
    (logged.map fun commit => commitOf tags commit.shown).Sublist (commitsRead tags logged) := by
  induction logged with
  | nil => exact List.Sublist.refl []
  | cons commit logged inductionHypothesis =>
    rw [commitsRead, List.flatMap_cons, List.map_cons, List.map_cons, List.cons_append]
    exact (inductionHypothesis.trans (List.sublist_append_right _ _)).cons_cons _

theorem commitsRead_of_honest {logged : List Logged}
    (honest : ∀ commit ∈ logged, ¬ commit.Forges) :
    commitsRead tags logged = logged.map fun commit => commitOf tags commit.shown := by
  rw [commitsRead, List.map_eq_flatMap]
  refine List.flatMap_congr fun commit member => ?_
  rw [(commit.forged_eq_nil_iff).mpr (honest commit member)]
  rfl

theorem length_commitsRead (logged : List Logged) :
    (commitsRead tags logged).length =
      logged.length + (logged.map fun commit => commit.forged.length).sum := by
  induction logged with
  | nil => rfl
  | cons commit logged inductionHypothesis =>
    rw [commitsRead, List.flatMap_cons, ← commitsRead, List.length_append, List.length_map,
      inductionHypothesis, List.map_cons, List.sum_cons, List.length_cons, List.length_cons]
    omega

theorem length_commitsRead_eq_iff (logged : List Logged) :
    (commitsRead tags logged).length = logged.length ↔ ∀ commit ∈ logged, ¬ commit.Forges := by
  rw [length_commitsRead, Nat.add_eq_left, List.sum_eq_zero_iff_forall_eq_nat]
  simp only [List.forall_mem_map, List.length_eq_zero_iff, Logged.forged_eq_nil_iff]

end

/-- Whatever the messages are: the commits that git printed are all read, in order, each with its
own hash and the tag of this hash. There are others exactly if some message forges a record, and if
none does, the commits that are read are those that git printed, one for one. -/
theorem commits_unless_forged (folder : String) (history : History) (errors : List UInt8)
    (logged : List Logged) (hexadecimal : ∀ commit ∈ logged, commit.Hexadecimal) :
    let found := commitsRead history.tags logged
    history.commits folder (.ended 0 (Text.Utf8.encode (logText logged)) errors) = .ok found ∧
    (logged.map fun commit => commitOf history.tags commit.shown).Sublist found ∧
    (found.length = logged.length ↔ ∀ commit ∈ logged, ¬ commit.Forges) ∧
    ((∀ commit ∈ logged, ¬ commit.Forges) → List.Forall₂ (fun commit record =>
      record.hash = String.ofList commit.hash ∧
        record.tag = (history.tags.find? (String.ofList commit.hash)).getD "") logged found) := by
  intro found
  refine ⟨commits_logText folder history errors fun commit member =>
    (hexadecimal commit member).solid, shown_sublist_commitsRead history.tags logged,
    length_commitsRead_eq_iff history.tags logged, ?_⟩
  intro honest
  rw [show found = _ from commitsRead_of_honest history.tags honest, List.forall₂_map_right_iff,
    List.forall₂_same]
  exact fun commit _ => ⟨rfl, rfl⟩

/-- Two commits, the message of the first one with a field separator and an empty record in it. -/
theorem commits_unless_forged_separators :
    let history : History := ⟨[("b1", "v1")]⟩
    let logged : List Logged :=
      [⟨"a2".toList, "Fix\x1fit\x1e\x1e".toList⟩, ⟨"b1".toList, "First\n".toList⟩]
    history.commits "modules/a" (.ended 0 (Text.Utf8.encode (logText logged)) []) =
      .ok [⟨"a2", "Fix\x1fit", ""⟩, ⟨"b1", "First", "v1"⟩] := by
  intro history logged
  obtain ⟨read, -⟩ := commits_unless_forged "modules/a" history [] logged (by
    intro commit member
    rcases List.mem_cons.mp member with rfl | later
    · exact ⟨by decide, List.all_eq_true.mp (by decide)⟩
    · rw [List.mem_singleton.mp later]
      exact ⟨by decide, List.all_eq_true.mp (by decide)⟩)
  rw [read]
  decide +kernel

/-- A message with a record of its own brings a commit, and with it a release, into the history of
a folder that this commit did not touch. -/
theorem release_forged_by_message :
    let history : History := ⟨[("bbbbbbbb", "v9")]⟩
    let logged : List Logged := [⟨"aaaaaaaa".toList, "Fix\x1ebbbbbbbb\x1fRelease".toList⟩]
    (∀ commit ∈ logged, commit.Hexadecimal) ∧
    history.commits "modules/a" (.ended 0 (Text.Utf8.encode (logText logged)) []) =
      .ok [⟨"aaaaaaaa", "Fix", ""⟩, ⟨"bbbbbbbb", "Release", "v9"⟩] := by
  refine ⟨?_, by decide +kernel⟩
  intro commit member
  rw [List.mem_singleton.mp member]
  exact ⟨by decide, List.all_eq_true.mp (by decide)⟩

/-- A log is read back as the commits that git printed: each in its place with its whole hash and
its tag, and with its message less the line breaks at its end. -/
theorem commits_of_log (folder : String) (history : History) (errors : List UInt8)
    (logged : List Logged) (solid : ∀ commit ∈ logged, commit.Solid)
    (whole : ∀ commit ∈ logged, recordSeparator ∉ commit.message) :
    ∃ found, history.commits folder (.ended 0 (Text.Utf8.encode (logText logged)) errors) =
        .ok found ∧
      List.Forall₂ (Shown history.tags) logged found := by
  refine ⟨_, commits_logText folder history errors solid, ?_⟩
  rw [commitsRead_of_honest history.tags fun commit member =>
    Logged.not_forges (whole commit member), List.forall₂_map_right_iff, List.forall₂_same]
  exact fun commit member => commitOf_shown history.tags (whole commit member)

/-- Line breaks before a message, a field separator and a tab in it are kept. -/
theorem commits_of_log_separators :
    let history : History := ⟨[("xyz", "v1")]⟩
    let logged : List Logged :=
      [⟨"xyz".toList, "\r\n\nA\x1fB\tC\r\n".toList⟩, ⟨"é".toList, []⟩]
    (∀ commit ∈ logged, commit.Solid ∧ recordSeparator ∉ commit.message) ∧
    ∃ found, history.commits "modules/a" (.ended 0 (Text.Utf8.encode (logText logged)) []) =
        .ok found ∧
      found = [⟨"xyz", "\r\n\nA\x1fB\tC", "v1"⟩, ⟨"é", "", ""⟩] ∧
      List.Forall₂ (Shown history.tags) logged found := by
  intro history logged
  have visible {hash : List Char} (each : (hash.all fun c => !Text.isBlank c) = true) :
      ∀ c ∈ hash, Text.isBlank c = false := by
    simpa using each
  have plain : ∀ commit ∈ logged, commit.Solid ∧ recordSeparator ∉ commit.message := by
    intro commit member
    rcases List.mem_cons.mp member with rfl | later
    · exact ⟨⟨by decide, visible (by decide), by decide⟩, by decide⟩
    · rw [List.mem_singleton.mp later]
      exact ⟨⟨by decide, visible (by decide), by decide⟩, by decide⟩
  obtain ⟨found, read, same⟩ := commits_of_log "modules/a" history [] logged
    (fun commit member => (plain commit member).1) (fun commit member => (plain commit member).2)
  refine ⟨plain, found, read, ?_, same⟩
  have shown : history.commits "modules/a" (.ended 0 (Text.Utf8.encode (logText logged)) []) =
      .ok [⟨"xyz", "\r\n\nA\x1fB\tC", "v1"⟩, ⟨"é", "", ""⟩] := by decide +kernel
  rw [read] at shown
  exact Except.ok.inj shown

end TerraDoc.Git
