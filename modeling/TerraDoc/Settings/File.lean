import TerraDoc.Dictionary
import TerraDoc.Settings.Basic
import TerraDoc.Text.Blank
import TerraDoc.Yaml.Node

/-!
The settings file of a repository: a YAML mapping from names of settings to values. A setting that
it leaves out keeps its default; a name that it repeats, or that is no setting, is an error.
-/

namespace TerraDoc

inductive SettingsError where
  /-- The text is no YAML, or not of the right shape. -/
  | invalid
  | noExtensions
deriving DecidableEq, Repr

namespace Settings

/-- The name of the settings file at the root of a repository. -/
def fileName : String := ".tf-autodoc.yml"

end Settings

def SettingsError.message : SettingsError → String
  | .invalid => "Invalid " ++ Settings.fileName
  | .noExtensions => "extensions must list at least one file extension"

namespace Yaml.Document

/-- The text of a scalar, as it is written. -/
def scalar? (document : Document) (node : Node) : Option String :=
  match document.resolve node with
  | some (.scalar text) => some (String.ofList text)
  | _ => none

/-- The texts of a sequence of scalars; nothing at all is an empty one. -/
def scalars? (document : Document) (node : Node) : Option (List String) :=
  match document.resolve node with
  | some (.sequence items) => items.mapM document.scalar?
  | some (.scalar []) => some []
  | _ => none

/-- The entries of a mapping from scalars; nothing at all is an empty one. -/
def entries? (document : Document) : Option (List (String × Node)) :=
  match document.root.map document.resolve with
  | some (some (.mapping entries)) =>
      entries.mapM fun (key, value) => do return (← document.scalar? key, value)
  | some (some (.scalar [])) => some []
  | none => some []
  | _ => none

end Yaml.Document

namespace Settings

def assign? (document : Yaml.Document) (settings : Settings) (entry : String × Yaml.Node) :
    Option Settings := do
  if entry.1 = "extensions" then
    let extensions ← document.scalars? entry.2
    return { settings with extensions }
  else settings.set? entry.1 (← document.scalar? entry.2)

def ofDocument? (document : Yaml.Document) : Option Settings := do
  let entries ← document.entries?
  if (Dictionary.repeated? entries).isSome then none
  else entries.foldlM (assign? document) default

/-- The settings of a settings file. A blank text leaves all defaults. -/
def parse (text : List Char) : Except SettingsError Settings :=
  if text.all Text.isBlank then .ok default
  else match (Yaml.Document.read? text).bind ofDocument? with
    | none => .error .invalid
    | some settings =>
        if settings.extensions.isEmpty then .error .noExtensions else .ok settings

end Settings

end TerraDoc
