import TerraDoc.Proofs.CommentLockstep
import TerraDoc.Proofs.FileMirror
import TerraDoc.Proofs.NumberExponents

/-!
Comments and declarations. A source declares the same with a space in place of every comment, where
its tokens are regular and its heredocs close where they did.
-/

namespace TerraDoc.Hcl

open Exponent

variable {source : List Char} {file : File}

/-- Where a position of a normalised source is in the source. -/
def restoredPosition (source : List Char) (position : Nat) : Nat :=
  position - 2 * (insertions source).countP (· < position)

/-- The comments of a file in the source that it was read from. -/
def File.commentsIn (source : List Char) (file : File) : List Slice :=
  (commentsOf file.tokens).map (Slice.moved (restoredPosition source))

/-- A source with a space in place of every comment. -/
def File.uncommented (source : List Char) (file : File) : List Char :=
  spaced 0 (file.commentsIn source) source

/-- Comments do not influence declarations: with a space in place of each of them a source is read
as well, its blocks are alike, and it declares the same. -/
theorem declared_without_comments {file : File} (read : parse? source = some file)
    (regular : file.Regular) (steady : file.Steady) :
    (InOrder 0 source.length (file.commentsIn source) ∧ Stand 0 (file.commentsIn source) source) ∧
    ∃ bare, parse? (file.uncommented source) = some bare ∧
      List.Forall₂ Block.Alike file.blocks bare.blocks ∧
      (Module.declarations file.blocks).mapError Module.DeclarationError.stripped =
        (Module.declarations bare.blocks).mapError Module.DeclarationError.stripped := by
  have normal := (normalize_occurs source).1
  have scanned := readFile?_scanned read normal regular
  obtain ⟨other, bare, spacing, readBare, same⟩ := readFile?_spaced read
  have whole : file.source = normalize source := by
    obtain ⟨content, c, -, -, rfl⟩ := readFile?_cases read
    rfl
  have recorded := scanned.recorded
  have opened := scanned.opened
  have regular' := regular
  unfold File.Regular at regular'
  rw [whole] at recorded opened regular'
  have moves : Moves (restoredPosition source) .initial 0 0 source := fun x _ => by
    rw [restoredPosition, insertions_eq, Nat.zero_add, Nat.sub_zero]
  have restored : Restored .initial (restoredPosition source) 0 file.tokens source other :=
    spacing.restored opened ⟨recorded, regular', steady⟩ rfl (normalizeFrom_elides .initial source)
      (.refl _ _) moves
  obtain ⟨elides, inOrder, stand⟩ := restored
  rw [Nat.zero_add] at inOrder
  have alike := File.blocks_alike same
  refine ⟨⟨inOrder, stand⟩, bare, ?_, alike, Module.declarations_alike alike⟩
  rw [parse?, File.uncommented, Exponent.normalize]
  rw [show normalizeFrom .initial (spaced 0 (file.commentsIn source) source) = other from
    elides.normalizeFrom_eq]
  exact readBare

theorem Token.steady_of_isOrdinary {token : Token} (ordinary : token.isOrdinary source = true) :
    token.Steady := by
  rintro slice inside rfl
  cases ordinary

/-- Comments in a header, after a line and beside a number without a fraction. -/
def commentedVariable : List Char :=
  "variable /* a */ x \x7b # b\n  default = /* c */1e3// d\n\x7d\n".toList

theorem declared_without_comments_header :
    ∃ file bare, parse? commentedVariable = some file ∧ file.Regular ∧ file.Steady ∧
      file.uncommented commentedVariable =
        "variable   x \x7b  \n  default =  1e3 \n\x7d\n".toList ∧
      parse? "variable   x \x7b  \n  default =  1e3 \n\x7d\n".toList = some bare ∧
      List.Forall₂ Block.Alike file.blocks bare.blocks := by
  have checked : ((parse? commentedVariable).any fun file =>
      file.tokens.all (Token.isOrdinary file.source) &&
        file.uncommented commentedVariable ==
          "variable   x \x7b  \n  default =  1e3 \n\x7d\n".toList) = true := by decide +kernel
  obtain ⟨file, read, good⟩ := (Option.any_eq_true _ _).mp checked
  rw [Bool.and_eq_true, beq_iff_eq] at good
  obtain ⟨ordinary, spaces⟩ := good
  have regular : file.Regular := fun token member =>
    Token.regular_of_isOrdinary (List.all_eq_true.mp ordinary token member)
  have steady : file.Steady := fun token member =>
    Token.steady_of_isOrdinary (List.all_eq_true.mp ordinary token member)
  obtain ⟨-, bare, readBare, alike, -⟩ := declared_without_comments read regular steady
  rw [spaces] at readBare
  exact ⟨file, bare, read, regular, steady, spaces, readBare, alike⟩

/-- A comment before the marker of a heredoc, in an interpolation. -/
def commentInHeredoc : List Char :=
  "variable \"x\" \x7b\n  description = <<EOT\n$\x7b b +\n/* c */ EOT\n\x7d /*\nEOT\n".toList ++
    "  default = 1e3\n\x7d\n".toList

/-- Whether a token is no stretch of a string that goes over a line feed. -/
def Token.isUnbroken : Token → Bool
  | text slice | labelText slice => !slice.text.contains '\n'
  | _ => true

/-- With a space in place of the comment the normaliser sees the heredoc end early, and the file is
not read. -/
theorem heredoc_closed_by_space :
    ∃ file, parse? commentInHeredoc = some file ∧ file.tokens.all Token.isUnbroken = true ∧
      file.uncommented commentInHeredoc =
        "variable \"x\" \x7b\n  description = <<EOT\n$\x7b b +\n  EOT\n\x7d /*\nEOT\n".toList ++
          "  default = 1e3\n\x7d\n".toList ∧
      parse? (file.uncommented commentInHeredoc) = none := by
  have checked : ((parse? commentInHeredoc).any fun file =>
      file.tokens.all Token.isUnbroken && (file.uncommented commentInHeredoc ==
        "variable \"x\" \x7b\n  description = <<EOT\n$\x7b b +\n  EOT\n\x7d /*\nEOT\n".toList ++
          "  default = 1e3\n\x7d\n".toList) &&
      (parse? (file.uncommented commentInHeredoc)).isNone) = true := by decide +kernel
  obtain ⟨file, read, good⟩ := (Option.any_eq_true _ _).mp checked
  rw [Bool.and_eq_true, Bool.and_eq_true, beq_iff_eq, Option.isNone_iff_eq_none] at good
  exact ⟨file, read, good.1.1, good.1.2, good.2⟩

end TerraDoc.Hcl
