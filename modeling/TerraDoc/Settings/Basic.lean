import TerraDoc.Json.Decode
import TerraDoc.Path

namespace TerraDoc

/-- Where the modules are, which of their files are read, and how the READMEs are called. -/
structure Settings where
  /-- The folder that holds one folder for each module. -/
  modulesDir : String
  /-- The file whose header describes its module. -/
  mainFile : String
  /-- The extensions of configuration files; leading dots do not count. -/
  extensions : List String
  readmeName : String
  indexTitle : String
deriving DecidableEq, Repr, Inhabited

namespace Settings

def default : Settings where
  modulesDir := "modules"
  mainFile := "main.tf"
  extensions := ["tf"]
  readmeName := "README.md"
  indexTitle := "Terraform Modules"

/-- An extension as it stands in a file name. -/
def bareExtension (extension : String) : List Char :=
  extension.toList.dropWhile (· == '.')

/-- Whether a file of this name is a configuration file. -/
def isConfigFile (settings : Settings) (name : List Char) : Bool :=
  match Path.extension? name with
  | some extension => settings.extensions.any fun wanted => bareExtension wanted == extension
  | none => false

/-- A setting by its name in a settings file. -/
def set? (settings : Settings) (name : String) (value : String) : Option Settings :=
  match name with
  | "modules_dir" => some { settings with modulesDir := value }
  | "main_file" => some { settings with mainFile := value }
  | "readme_name" => some { settings with readmeName := value }
  | "index_title" => some { settings with indexTitle := value }
  | _ => none

/-- The names of all settings, in the order in which they are listed. -/
def fieldNames : List String :=
  ["modules_dir", "main_file", "extensions", "readme_name", "index_title"]

def toJson (settings : Settings) : Json :=
  .object [
    ("modules_dir", .string settings.modulesDir),
    ("main_file", .string settings.mainFile),
    ("extensions", .array (settings.extensions.map .string)),
    ("readme_name", .string settings.readmeName),
    ("index_title", .string settings.indexTitle)]

def setJson? (settings : Settings) (member : String × Json) : Option Settings := do
  if member.1 = "extensions" then
    let extensions ← (← member.2.asArray?).mapM Json.asString?
    return { settings with extensions }
  else settings.set? member.1 (← member.2.asString?)

/-- The settings of a JSON object; those it leaves out keep their defaults. An array gives the
settings in the order of their names. -/
def ofJson? : Json → Option Settings
  | .object members =>
      if members.Pairwise (fun a b => a.1 ≠ b.1) then members.foldlM setJson? default else none
  | .array items =>
      if items.length ≤ fieldNames.length then
        (fieldNames.zip items).foldlM setJson? default
      else none
  | _ => none

end Settings

end TerraDoc
