import TerraDoc.Docs.Readme
import TerraDoc.Files.System

/-!
Writing the documents: the index at the root of the repository, then the READMEs of the modules in
the order of their folders. The first file that cannot be written ends it.
-/

namespace TerraDoc.Docs

open Files

/-- The documents of a scan, with the paths they are written to. -/
def documents (settings : Settings) (repository : List Char) (catalogue : Catalogue) :
    List (List Char × List Char) :=
  let name := settings.readmeName.toList
  (Path.join repository name, index settings catalogue) ::
    catalogue.map fun (folder, documented) =>
      (Path.join (Path.join repository folder.toList) name, readme settings documented)

/-- What was written before the end or the first failure. -/
structure Publication where
  files : FileSystem
  paths : List (List Char)
  failure : Option FileError

def writeEach : List (List Char × List Char) → FileSystem → Publication
  | [], files => ⟨files, [], none⟩
  | (path, text) :: rest, files =>
      match files.write path (Text.Utf8.encode text) with
      | .error cause => ⟨files, [], some cause⟩
      | .ok files =>
          let later := writeEach rest files
          { later with paths := path :: later.paths }

def publish (settings : Settings) (repository : List Char) (catalogue : Catalogue)
    (files : FileSystem) : Publication :=
  writeEach (documents settings repository catalogue) files

end TerraDoc.Docs
