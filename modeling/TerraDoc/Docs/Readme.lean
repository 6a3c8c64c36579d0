import TerraDoc.Docs.Markdown
import TerraDoc.Module.Record
import TerraDoc.Settings.Basic

namespace TerraDoc.Docs

open Markdown

/-- A path below a folder, as it stands in a link. -/
def below (folder name : List Char) : List Char :=
  folder ++ '/' :: name

/-- A section of links to modules beside this one; nothing if there are none. -/
def siblings (settings : Settings) (title : String) (names : List String) : List Char :=
  if names.isEmpty then []
  else
    heading2 title.toList ++
      (names.map fun name =>
        bullet (link name.toList
          (below (below ['.', '.'] name.toList) settings.readmeName.toList))).flatten ++
      paragraph []

def releaseRow (commit : Git.Commit) : List (List Char) :=
  [commit.tag.toList, Text.trimWhile Git.isLineBreak commit.message.toList,
    code commit.shortHash.toList]

def releases (documented : DocumentedModule) : List Char :=
  heading2 "Releases".toList ++
    if documented.releases.isEmpty then
      paragraph "There have been no releases yet for this module".toList
    else
      table ["Tag".toList, "Message".toList, "Commit".toList]
        (documented.releases.map releaseRow)

def variableRow (v : Module.Variable) : List (List Char) :=
  [code v.name.toList,
    code (if v.declaredType.isEmpty then "not specified".toList else v.declaredType.toList),
    v.description.toList, code v.defaultValue.toList]

def inputs (record : Module.Record) : List Char :=
  heading2 "Variables".toList ++
    table ["Name".toList, "Type".toList, "Description".toList, "Default Value".toList]
      (record.inputs.map variableRow)

def outputRow (output : Module.Output) : List (List Char) :=
  [output.name.toList, output.description.toList]

/-- The table of outputs; nothing if there are none. -/
def outputs (record : Module.Record) : List Char :=
  if record.outputs.isEmpty then []
  else
    heading2 "Outputs".toList ++
      table ["Name".toList, "Description".toList] (record.outputs.map outputRow)

def readme (settings : Settings) (documented : DocumentedModule) : List Char :=
  let record := documented.module
  heading1 record.header.title.toList ++
    paragraph record.header.description.toList ++
    siblings settings "Depends on" record.header.dependencies ++
    siblings settings "Works with" record.header.partners ++
    releases documented ++ inputs record ++ outputs record

/-- A row of the index; modules without a title have none. -/
def indexRow? (settings : Settings) (entry : String × DocumentedModule) :
    Option (List (List Char)) :=
  let header := entry.2.module.header
  if header.title.isEmpty then none
  else some [header.title.toList, header.description.toList,
    link "more details".toList (below entry.1.toList settings.readmeName.toList)]

def index (settings : Settings) (catalogue : Catalogue) : List Char :=
  heading1 settings.indexTitle.toList ++
    paragraph "This is a collection of terraform modules".toList ++
    paragraph "Click on the links to see the details of each of the modules".toList ++
    paragraph
      "This documentation is auto-generated from the terraform files using tf-autodoc.".toList ++
    heading2 "Modules".toList ++
    table ["Module".toList, "Description".toList, "Link".toList]
      (catalogue.filterMap (indexRow? settings))

end TerraDoc.Docs
