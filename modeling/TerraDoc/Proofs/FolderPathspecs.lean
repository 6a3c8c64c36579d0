import TerraDoc.Git.History
import TerraDoc.Proofs.ByteOrder
import TerraDoc.Proofs.LineText

/-!
Which files a folder's history is about. The pathspecs that git is given are globs with the folder's
path in them as it is: they match the configuration files below the folder and nothing else, as
long as no character of the path means something in a glob.
-/

namespace TerraDoc.Git

namespace Pathspec

def byteOf (c : Char) : UInt8 :=
  c.toNat.toUInt8

/-- The characters that do not stand for themselves in a glob. -/
def special : List Char :=
  ['*', '?', '[', '\\']

/-- A part of a glob. -/
inductive Piece where
  | byte (b : UInt8)
  /-- One byte of a name. -/
  | any
  /-- One byte of a name, of those that a set in brackets lists. -/
  | set (test : UInt8 → Bool)
  /-- Any number of bytes of a name. -/
  | name
  /-- Any number of names, each with the slash after it. -/
  | folders
  /-- Anything at all. -/
  | anything

/-- How a set in brackets is read, from what stands after its opening bracket: the bytes that it
lists, and the number of bytes up to its end. Without an end there is no set. -/
abbrev Sets := List UInt8 → Option ((UInt8 → Bool) × Nat)

/-- Read a glob; `front` says whether it stands at the front of a name, and `skip` how many more
bytes belong to the piece before it. Only at the front of a name, and with a slash or the end behind
them, do two or more stars cross slashes. -/
def read (sets : Sets) (front : Bool) (skip : Nat) : List UInt8 → Option (List Piece)
  | [] => some []
  | b :: rest =>
      if 0 < skip then read sets front (skip - 1) rest
      else if b = byteOf '*' then
        let stars := (rest.takeWhile (· == byteOf '*')).length
        let after := rest.drop stars
        if front && 0 < stars && after.head? = some (byteOf '/') then
          (read sets true (stars + 1) rest).map (.folders :: ·)
        else if front && 0 < stars &&
            (after.isEmpty || [byteOf '\\', byteOf '/'].isPrefixOf after) then
          (read sets false stars rest).map (.anything :: ·)
        else (read sets false stars rest).map (.name :: ·)
      else if b = byteOf '?' then (read sets false 0 rest).map (.any :: ·)
      else if b = byteOf '[' then
        (sets rest).bind fun (test, length) =>
          (read sets false length rest).map (.set test :: ·)
      else if b = byteOf '\\' then
        rest.head?.bind fun c => (read sets (c == byteOf '/') 1 rest).map (.byte c :: ·)
      else (read sets (b == byteOf '/') 0 rest).map (.byte b :: ·)

/-- Pieces match a whole path. -/
inductive Piece.Match : List Piece → List UInt8 → Prop where
  | nil : Match [] []
  | byte (b : UInt8) (later : Match pieces path) : Match (.byte b :: pieces) (b :: path)
  | any (inside : b ≠ byteOf '/') (later : Match pieces path) : Match (.any :: pieces) (b :: path)
  | set (listed : test b = true) (inside : b ≠ byteOf '/') (later : Match pieces path) :
      Match (.set test :: pieces) (b :: path)
  | name (inside : byteOf '/' ∉ part) (later : Match pieces path) :
      Match (.name :: pieces) (part ++ path)
  | noFolders (later : Match pieces path) : Match (.folders :: pieces) path
  | folders (front : List UInt8) (later : Match pieces path) :
      Match (.folders :: pieces) (front ++ byteOf '/' :: path)
  | anything (front : List UInt8) (later : Match pieces path) :
      Match (.anything :: pieces) (front ++ path)

/-- A pathspec with the mark of a glob matches a path from the folder that git runs in. -/
def Matches (sets : Sets) (spec : String) (path : List UInt8) : Prop :=
  ∃ pattern pieces, spec.toList = ":(glob)".toList ++ pattern ∧
    read sets true 0 (Text.Utf8.encode pattern) = some pieces ∧ Piece.Match pieces path

/-- What stands after two hyphens in a command of git are pathspecs. -/
def ofArguments (arguments : List String) : List String :=
  (arguments.dropWhile (· ≠ "--")).drop 1

theorem special_ascii : ∀ sign ∈ special, (byteOf sign).toNat = sign.toNat ∧ sign.toNat < 0x80 := by
  rw [← List.forall_iff_forall_mem]
  decide

theorem plain_encode {text : List Char} (plain : ∀ c ∈ text, c ∉ special) :
    ∀ b ∈ Text.Utf8.encode text, b ∉ special.map byteOf := by
  intro b inside listed
  obtain ⟨c, member, among⟩ := List.mem_flatMap.mp inside
  obtain ⟨sign, meant, rfl⟩ := List.mem_map.mp listed
  obtain ⟨code, ascii⟩ := special_ascii sign meant
  rcases Text.Utf8.mem_utf8EncodeChar among with same | high
  · have equal : sign = c := Char.toNat_inj.mp (code.symm.trans same)
    exact plain c member (equal ▸ meant)
  · omega

theorem read_plain (sets : Sets) (front : Bool) {bytes : List UInt8}
    (plain : ∀ b ∈ bytes, b ∉ special.map byteOf) (rest : List UInt8) :
    read sets front 0 (bytes ++ byteOf '/' :: rest) =
      (read sets true 0 rest).map (bytes.map .byte ++ .byte (byteOf '/') :: ·) := by
  induction bytes generalizing front with
  | nil =>
    rw [List.nil_append, read]
    rfl
  | cons b bytes inductionHypothesis =>
    have single := plain b List.mem_cons_self
    simp only [special, List.map_cons, List.map_nil, List.mem_cons, List.not_mem_nil, or_false,
      not_or] at single
    have later := inductionHypothesis (b == byteOf '/') fun c member =>
      plain c (List.mem_cons_of_mem b member)
    simp [read, single, later, Option.map_map, Function.comp_def]

/-- How the names of configuration files end. -/
def endings : List (List Char) :=
  ["tf".toList, "TF".toList]

theorem read_below (sets : Sets) {ending : List Char} (known : ending ∈ endings) :
    read sets true 0 (Text.Utf8.encode ("**/*".toList ++ ending)) =
      some (.folders :: .name :: (Text.Utf8.encode ending).map .byte) := by
  simp only [endings, List.mem_cons, List.not_mem_nil, or_false] at known
  rcases known with rfl | rfl
  · rfl
  · rfl

theorem match_bytes {bytes : List UInt8} {pieces : List Piece} {path : List UInt8} :
    Piece.Match (bytes.map .byte ++ pieces) path ↔
      ∃ rest, path = bytes ++ rest ∧ Piece.Match pieces rest := by
  induction bytes generalizing path with
  | nil => simp
  | cons b bytes inductionHypothesis =>
    constructor
    · intro whole
      cases whole with
      | byte _ later =>
        obtain ⟨rest, rfl, matched⟩ := inductionHypothesis.mp later
        exact ⟨rest, rfl, matched⟩
    · rintro ⟨rest, rfl, matched⟩
      exact .byte b (inductionHypothesis.mpr ⟨rest, rfl, matched⟩)

/-- Any folders and a name can stand before an ending. -/
theorem match_below {ending : List UInt8} {path : List UInt8} :
    Piece.Match (.folders :: .name :: ending.map .byte) path ↔ ending <:+ path := by
  have named {path : List UInt8} : Piece.Match (.name :: ending.map .byte) path ↔
      ∃ part, byteOf '/' ∉ part ∧ path = part ++ ending := by
    constructor
    · intro whole
      cases whole with
      | name inside later =>
        rw [← List.append_nil (ending.map _)] at later
        obtain ⟨rest, rfl, ends⟩ := match_bytes.mp later
        cases ends
        exact ⟨_, inside, by simp⟩
    · rintro ⟨part, inside, rfl⟩
      refine .name inside ?_
      simpa using match_bytes.mpr ⟨[], (List.append_nil ending).symm, .nil⟩
  constructor
  · intro whole
    cases whole with
    | noFolders later =>
      obtain ⟨part, -, rfl⟩ := named.mp later
      exact List.suffix_append part ending
    | folders front later =>
      obtain ⟨part, -, rfl⟩ := named.mp later
      exact ⟨front ++ byteOf '/' :: part, by simp⟩
  · rintro ⟨front, rfl⟩
    by_cases slash : byteOf '/' ∈ front
    · -- the last slash ends the folders
      obtain ⟨part, before, split, inside⟩ :=
        List.eq_append_cons_of_mem (List.mem_reverse.mpr slash)
      have whole : front = before.reverse ++ byteOf '/' :: part.reverse := by
        rw [← List.reverse_reverse front, split]
        simp
      rw [whole, List.append_assoc, List.cons_append]
      exact .folders _ (named.mpr ⟨part.reverse, by simpa using inside, rfl⟩)
    · exact .noFolders (named.mpr ⟨front, slash, rfl⟩)

/-- A glob made of a plain folder and an ending matches what lies below the folder and ends so. -/
theorem matches_below (sets : Sets) {folder ending : List Char}
    (plain : ∀ c ∈ folder, c ∉ special) (known : ending ∈ endings) (path : List UInt8) :
    Matches sets (String.ofList (":(glob)".toList ++ folder ++ "/**/*".toList ++ ending)) path ↔
      ∃ below, path = Text.Utf8.encode folder ++ byteOf '/' :: below ∧
        Text.Utf8.encode ending <:+ below := by
  have encoded : Text.Utf8.encode (folder ++ "/**/*".toList ++ ending) =
      Text.Utf8.encode folder ++ byteOf '/' :: Text.Utf8.encode ("**/*".toList ++ ending) := by
    simp [Text.Utf8.encode]
    rfl
  have pieces : read sets true 0 (Text.Utf8.encode (folder ++ "/**/*".toList ++ ending)) =
      some ((Text.Utf8.encode folder).map .byte ++ .byte (byteOf '/') ::
        (.folders :: .name :: (Text.Utf8.encode ending).map .byte)) := by
    rw [encoded, read_plain sets true (plain_encode plain), read_below sets known]
    rfl
  have matched : Matches sets
      (String.ofList (":(glob)".toList ++ folder ++ "/**/*".toList ++ ending)) path ↔
      Piece.Match ((Text.Utf8.encode folder).map .byte ++ .byte (byteOf '/') ::
        (.folders :: .name :: (Text.Utf8.encode ending).map .byte)) path := by
    constructor
    · rintro ⟨pattern, found, spelled, readAs, whole⟩
      rw [String.toList_ofList, List.append_assoc, List.append_assoc,
        List.append_cancel_left_eq, ← List.append_assoc] at spelled
      rw [← spelled, pieces] at readAs
      cases readAs
      exact whole
    · intro whole
      exact ⟨_, _, by simp, pieces, whole⟩
  rw [matched, match_bytes]
  constructor
  · rintro ⟨rest, rfl, whole⟩
    cases whole with
    | byte _ later => exact ⟨_, rfl, match_below.mp later⟩
  · rintro ⟨below, rfl, ends⟩
    exact ⟨_, rfl, .byte _ (match_below.mpr ends)⟩

theorem ofArguments_log (folder : String) :
    ofArguments (Query.log folder).arguments = pathspecs folder.toList := by
  have format : String.ofList ("--format=%H".toList ++ fieldSeparator :: "%B".toList ++
      [recordSeparator]) ≠ "--" := by decide
  show List.drop 1 (List.dropWhile _ ("log" :: _ :: "--" :: pathspecs folder.toList)) = _
  rw [List.dropWhile_cons_of_pos (by decide), List.dropWhile_cons_of_pos (by simpa using format)]
  rfl

theorem pathspecs_eq (folder : List Char) :
    pathspecs folder = endings.map fun ending => String.ofList
      (":(glob)".toList ++ Text.trimWhile (· == '/') folder ++ "/**/*".toList ++ ending) := by
  simp only [pathspecs, endings, List.map_cons, List.map_nil, List.append_assoc]
  rfl

end Pathspec

open Pathspec

/-- The history of a folder is about the files below it whose names end in `tf` or `TF` and about
no others, as long as no character of its path has a meaning in globs: these are the files that the
pathspecs match which git is given, however it reads the sets in a glob. -/
theorem history_below_folder (sets : Sets) (folder : String)
    (plain : ∀ c ∈ folder.toList, c ∉ ['*', '?', '[', '\\']) (path : List UInt8) :
    (∃ spec ∈ ofArguments (Query.log folder).arguments, Matches sets spec path) ↔
      ∃ below, path = Text.Utf8.encode (Text.trimWhile (· == '/') folder.toList) ++
          byteOf '/' :: below ∧
        ∃ ending ∈ ["tf".toList, "TF".toList], Text.Utf8.encode ending <:+ below := by
  obtain ⟨front, back, split, -⟩ := Text.trimWhile_split (· == '/') folder.toList
  have inside : ∀ c ∈ Text.trimWhile (· == '/') folder.toList, c ∉ special := by
    intro c member
    apply plain
    rw [split]
    exact List.mem_append_right _ (List.mem_append_left _ member)
  rw [ofArguments_log, pathspecs_eq]
  constructor
  · rintro ⟨spec, given, matched⟩
    obtain ⟨ending, known, rfl⟩ := List.mem_map.mp given
    obtain ⟨below, same, ends⟩ := (matches_below sets inside known path).mp matched
    exact ⟨below, same, ending, known, ends⟩
  · rintro ⟨below, same, ending, known, ends⟩
    exact ⟨_, List.mem_map_of_mem known,
      (matches_below sets inside known path).mpr ⟨below, same, ends⟩⟩

/-- The history of a folder is about files in its folders, and not about a file beside it. -/
theorem history_below_folder_nested :
    (∀ c ∈ "/modules/küche/".toList, c ∉ ['*', '?', '[', '\\']) ∧
      (∃ spec ∈ ofArguments (Query.log "/modules/küche/").arguments,
        Matches (fun _ => none) spec (Text.Utf8.encode "modules/küche/net/main.tf".toList)) ∧
      ¬ ∃ spec ∈ ofArguments (Query.log "/modules/küche/").arguments,
        Matches (fun _ => none) spec (Text.Utf8.encode "modules/küche.tf".toList) := by
  have plain : ∀ c ∈ "/modules/küche/".toList, c ∉ ['*', '?', '[', '\\'] := by
    rw [← List.forall_iff_forall_mem]
    decide
  refine ⟨plain, ?_, ?_⟩
  · rw [history_below_folder _ _ plain]
    exact ⟨Text.Utf8.encode "net/main.tf".toList, by decide, "tf".toList, by decide, by decide⟩
  · rw [history_below_folder _ _ plain]
    rintro ⟨below, same, -⟩
    have trimmed : Text.trimWhile (· == '/') "/modules/küche/".toList = "modules/küche".toList := by
      decide
    have start : Text.Utf8.encode "modules/küche".toList ++ [byteOf '/'] <+:
        Text.Utf8.encode "modules/küche.tf".toList := by
      rw [same, trimmed]
      exact ⟨below, by simp⟩
    exact absurd start (by decide)

/-- With a star in its name a folder has the history of another one: the pathspecs of `modules/a*`
match a file of `modules/ab`. -/
theorem history_of_other_folder :
    ∃ spec ∈ ofArguments (Query.log "modules/a*").arguments,
      Matches (fun _ => none) spec (Text.Utf8.encode "modules/ab/main.tf".toList) ∧
      ¬ Text.Utf8.encode "modules/a*/".toList <+: Text.Utf8.encode "modules/ab/main.tf".toList := by
  have pieces : read (fun _ => none) true 0 (Text.Utf8.encode "modules/a*/**/*tf".toList) =
      some ((Text.Utf8.encode "modules/a".toList).map .byte ++
        (.name :: .byte (byteOf '/') :: .folders :: .name ::
          (Text.Utf8.encode "tf".toList).map .byte)) := rfl
  have file : Piece.Match (.folders :: .name :: (Text.Utf8.encode "tf".toList).map .byte)
      (Text.Utf8.encode "main.tf".toList) := match_below.mpr (by decide)
  have starred : Piece.Match (.name :: .byte (byteOf '/') :: .folders :: .name ::
      (Text.Utf8.encode "tf".toList).map .byte) (Text.Utf8.encode "b/main.tf".toList) :=
    @Piece.Match.name (Text.Utf8.encode "b".toList) _ _ (by decide) (.byte _ file)
  exact ⟨":(glob)modules/a*/**/*tf", by decide,
    ⟨_, _, rfl, pieces, match_bytes.mpr ⟨_, rfl, starred⟩⟩, by decide⟩

end TerraDoc.Git
