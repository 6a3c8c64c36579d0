import TerraDoc.Git.History
import TerraDoc.Json.Decode
import TerraDoc.Module.Declaration
import TerraDoc.Module.Header

namespace TerraDoc

namespace Module

/-- A module's folder, its header, and what its files declare. -/
structure Record where
  folderPath : String
  header : Header
  inputs : List Variable
  outputs : List Output
deriving DecidableEq, Repr, Inhabited

end Module

/-- A module with the commits that touched it, newest first. -/
structure DocumentedModule where
  module : Module.Record
  commits : List Git.Commit
deriving DecidableEq, Repr, Inhabited

def DocumentedModule.releases (documented : DocumentedModule) : List Git.Commit :=
  documented.commits.filter (·.isTagged)

namespace Json

/-- The values of some members, all of which have to be there once. An array gives them in the
order of their names. -/
def record? (names : List String) (json : Json) : Option (List Json) :=
  match json with
  | .array items => if items.length = names.length then some items else none
  | json => names.mapM fun name => json.member? name

def strings? (json : Json) : Option (List String) := do
  (← json.asArray?).mapM asString?

def ofStrings (texts : List String) : Json :=
  .array (texts.map .string)

end Json

namespace Module

namespace Header

def toJson (header : Header) : Json :=
  .object [
    ("title", .string header.title),
    ("description", .string header.description),
    ("partners", .ofStrings header.partners),
    ("dependencies", .ofStrings header.dependencies)]

def ofJson? (json : Json) : Option Header := do
  match ← json.record? ["title", "description", "partners", "dependencies"] with
  | [title, description, partners, dependencies] =>
      return {
        title := ← title.asString?
        description := ← description.asString?
        partners := ← partners.strings?
        dependencies := ← dependencies.strings? }
  | _ => none

end Header

namespace Variable

def toJson (v : Variable) : Json :=
  .object [
    ("name", .string v.name),
    ("description", .string v.description),
    ("declared_type", .string v.declaredType),
    ("default_value", .string v.defaultValue),
    ("has_default", .bool v.hasDefault)]

def ofJson? (json : Json) : Option Variable := do
  match ← json.record?
      ["name", "description", "declared_type", "default_value", "has_default"] with
  | [name, description, declaredType, defaultValue, hasDefault] =>
      return {
        name := ← name.asString?
        description := ← description.asString?
        declaredType := ← declaredType.asString?
        defaultValue := ← defaultValue.asString?
        hasDefault := ← hasDefault.asBool? }
  | _ => none

end Variable

namespace Output

def toJson (output : Output) : Json :=
  .object [("name", .string output.name), ("description", .string output.description)]

def ofJson? (json : Json) : Option Output := do
  match ← json.record? ["name", "description"] with
  | [name, description] =>
      return { name := ← name.asString?, description := ← description.asString? }
  | _ => none

end Output

namespace Record

def toJson (record : Record) : Json :=
  .object [
    ("folder_path", .string record.folderPath),
    ("header", record.header.toJson),
    ("variables", .array (record.inputs.map Variable.toJson)),
    ("outputs", .array (record.outputs.map Output.toJson))]

def ofJson? (json : Json) : Option Record := do
  match ← json.record? ["folder_path", "header", "variables", "outputs"] with
  | [folderPath, header, inputs, outputs] =>
      return {
        folderPath := ← folderPath.asString?
        header := ← Header.ofJson? header
        inputs := ← (← inputs.asArray?).mapM Variable.ofJson?
        outputs := ← (← outputs.asArray?).mapM Output.ofJson? }
  | _ => none

end Record

end Module

namespace Git.Commit

def toJson (commit : Commit) : Json :=
  .object [
    ("hash", .string commit.hash),
    ("message", .string commit.message),
    ("tag", .string commit.tag)]

def ofJson? (json : Json) : Option Commit := do
  match ← json.record? ["hash", "message", "tag"] with
  | [hash, message, tag] =>
      return { hash := ← hash.asString?, message := ← message.asString?, tag := ← tag.asString? }
  | _ => none

end Git.Commit

namespace DocumentedModule

def toJson (documented : DocumentedModule) : Json :=
  .object [
    ("module", documented.module.toJson),
    ("commits", .array (documented.commits.map Git.Commit.toJson))]

def ofJson? (json : Json) : Option DocumentedModule := do
  match ← json.record? ["module", "commits"] with
  | [module, commits] =>
      return {
        module := ← Module.Record.ofJson? module
        commits := ← (← commits.asArray?).mapM Git.Commit.ofJson? }
  | _ => none

end DocumentedModule

/-- Modules by their folders. -/
abbrev Catalogue := Dictionary DocumentedModule

namespace Catalogue

def toJson (catalogue : Catalogue) : Json :=
  .object (catalogue.map fun (folder, documented) => (folder, documented.toJson))

def ofJson? (json : Json) : Option Catalogue := do
  let modules ← (← json.asObject?).mapM fun (folder, documented) =>
    return (folder, ← DocumentedModule.ofJson? documented)
  return Dictionary.ofList modules

end Catalogue

end TerraDoc
