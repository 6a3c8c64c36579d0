import TerraDoc.Files.Error
import TerraDoc.Git.History
import TerraDoc.Module.Declaration
import TerraDoc.Module.Header
import TerraDoc.Settings.File

namespace TerraDoc

inductive Failure where
  | file (cause : Files.FileError)
  /-- The file at a path is not in the language of configuration files. -/
  | grammar (path : List Char)
  | header (cause : Module.HeaderError)
  | declaration (cause : Module.DeclarationError)
  | git (cause : Git.GitError)
  | settings (cause : SettingsError)
  | format (name : String)
deriving DecidableEq, Repr

def Module.DeclarationError.message : Module.DeclarationError → String
  | .unnamed kind line =>
      "Malformed declaration: " ++ kind ++ " block at line " ++ toString line ++
        " is missing its name label"
  | .type cause => cause.message
  | .default cause => "Unrepresentable value: " ++ cause.message

def Failure.message : Failure → String
  | .file cause => "IO error: " ++ cause.message
  | .grammar path => "Parse error in " ++ String.ofList path ++ ": syntax error"
  | .header cause => "Malformed header: " ++ cause.message
  | .declaration cause => cause.message
  | .git cause => "Git error: " ++ cause.message
  | .settings cause => "Config error: " ++ cause.message
  | .format name =>
      "Config error: Unknown output format: " ++ name ++ " (expected markdown or json)"

end TerraDoc
