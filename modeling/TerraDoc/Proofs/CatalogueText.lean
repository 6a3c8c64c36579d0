import Mathlib.Data.List.Nodup
import TerraDoc.Module.Record
import TerraDoc.Proofs.DictionaryOrder
import TerraDoc.Proofs.JsonText
import TerraDoc.Proofs.Results

namespace TerraDoc

namespace Json

theorem mapM_of_reads {α : Type} {write : α → Json} {read : Json → Option α}
    (reads : ∀ item, read (write item) = some item) (list : List α) :
    (list.map write).mapM read = some list := by
  rw [Option.mapM_map_eq_some fun item _ => reads item, List.map_id']

theorem member?_of_mem {members : List (String × Json)} (distinct : (members.map Prod.fst).Nodup)
    {entry : String × Json} (among : entry ∈ members) :
    (Json.object members).member? entry.1 = some entry.2 := by
  have alone : members.filter (·.1 == entry.1) = [entry] := by
    induction members with
    | nil => cases among
    | cons first rest inductionHypothesis =>
      rw [List.map_cons, List.nodup_cons] at distinct
      rcases List.mem_cons.mp among with rfl | among
      · rw [List.filter_cons_of_pos (by exact beq_self_eq_true _)]
        congr 1
        rw [List.filter_eq_nil_iff]
        intro other member same
        apply distinct.1
        rw [← eq_of_beq same]
        exact List.mem_map_of_mem member
      · rw [List.filter_cons_of_neg]
        · exact inductionHypothesis distinct.2 among
        · intro same
          apply distinct.1
          rw [eq_of_beq same]
          exact List.mem_map_of_mem among
  rw [member?, asObject?, Option.bind_eq_bind, Option.bind_some, alone]

theorem record?_object {members : List (String × Json)}
    (distinct : (members.map Prod.fst).Nodup) :
    (Json.object members).record? (members.map Prod.fst) = some (members.map Prod.snd) :=
  Option.mapM_map_eq_some fun _ among => member?_of_mem distinct among

theorem strings?_ofStrings (texts : List String) : (ofStrings texts).strings? = some texts := by
  have reads (text : String) : asString? (.string text) = some text := rfl
  exact mapM_of_reads reads texts

theorem textual_array {α : Type} {write : α → Json} (textual : ∀ item, Textual (write item))
    (list : List α) : Textual (.array (list.map write)) := by
  apply Textual.array
  intro json member
  obtain ⟨item, -, rfl⟩ := List.mem_map.mp member
  exact textual item

theorem textual_ofStrings (texts : List String) : Textual (ofStrings texts) :=
  textual_array .string texts

end Json

open Json

namespace Module

theorem Header.ofJson?_toJson (header : Header) : ofJson? header.toJson = some header := by
  have values : header.toJson.record? ["title", "description", "partners", "dependencies"] = some
      [.string header.title, .string header.description, ofStrings header.partners,
        ofStrings header.dependencies] := record?_object (by simp)
  rw [ofJson?, values]
  simp [asString?, strings?_ofStrings]

theorem Header.textual_toJson (header : Header) : Textual header.toJson := by
  apply Textual.object
  simp only [List.forall_mem_cons]
  exact ⟨.string _, .string _, textual_ofStrings _, textual_ofStrings _, nofun⟩

theorem Variable.ofJson?_toJson (v : Variable) : ofJson? v.toJson = some v := by
  have values : v.toJson.record?
      ["name", "description", "declared_type", "default_value", "has_default"] = some
      [.string v.name, .string v.description, .string v.declaredType, .string v.defaultValue,
        .bool v.hasDefault] := record?_object (by simp)
  rw [ofJson?, values]
  rfl

theorem Variable.textual_toJson (v : Variable) : Textual v.toJson := by
  apply Textual.object
  simp only [List.forall_mem_cons]
  exact ⟨.string _, .string _, .string _, .string _, .bool _, nofun⟩

theorem Output.ofJson?_toJson (output : Output) : ofJson? output.toJson = some output := by
  have values : output.toJson.record? ["name", "description"] = some
      [.string output.name, .string output.description] := record?_object (by simp)
  rw [ofJson?, values]
  rfl

theorem Output.textual_toJson (output : Output) : Textual output.toJson := by
  apply Textual.object
  simp only [List.forall_mem_cons]
  exact ⟨.string _, .string _, nofun⟩

theorem Record.ofJson?_toJson (record : Record) : ofJson? record.toJson = some record := by
  have values : record.toJson.record? ["folder_path", "header", "variables", "outputs"] = some
      [.string record.folderPath, record.header.toJson,
        .array (record.inputs.map Variable.toJson), .array (record.outputs.map Output.toJson)] :=
    record?_object (by simp)
  rw [ofJson?, values]
  simp [asString?, asArray?, Header.ofJson?_toJson, mapM_of_reads Variable.ofJson?_toJson,
    mapM_of_reads Output.ofJson?_toJson]

theorem Record.textual_toJson (record : Record) : Textual record.toJson := by
  apply Textual.object
  simp only [List.forall_mem_cons]
  exact ⟨.string _, record.header.textual_toJson, textual_array Variable.textual_toJson _,
    textual_array Output.textual_toJson _, nofun⟩

end Module

theorem Git.Commit.ofJson?_toJson (commit : Git.Commit) : ofJson? commit.toJson = some commit := by
  have values : commit.toJson.record? ["hash", "message", "tag"] = some
      [.string commit.hash, .string commit.message, .string commit.tag] := record?_object (by simp)
  rw [ofJson?, values]
  rfl

theorem Git.Commit.textual_toJson (commit : Git.Commit) : Textual commit.toJson := by
  apply Textual.object
  simp only [List.forall_mem_cons]
  exact ⟨.string _, .string _, .string _, nofun⟩

namespace DocumentedModule

theorem ofJson?_toJson (documented : DocumentedModule) :
    ofJson? documented.toJson = some documented := by
  have values : documented.toJson.record? ["module", "commits"] = some
      [documented.module.toJson, .array (documented.commits.map Git.Commit.toJson)] :=
    record?_object (by simp)
  rw [ofJson?, values]
  simp [asArray?, Module.Record.ofJson?_toJson, mapM_of_reads Git.Commit.ofJson?_toJson]

theorem textual_toJson (documented : DocumentedModule) : Textual documented.toJson := by
  apply Textual.object
  simp only [List.forall_mem_cons]
  exact ⟨documented.module.textual_toJson, textual_array Git.Commit.textual_toJson _, nofun⟩

end DocumentedModule

namespace Catalogue

theorem ofJson?_toJson {catalogue : Catalogue} (ordered : Dictionary.Ordered catalogue) :
    ofJson? catalogue.toJson = some catalogue := by
  rw [ofJson?, toJson, asObject?, Option.bind_eq_bind, Option.bind_some]
  apply Option.bind_eq_some_iff.mpr
  refine ⟨catalogue, ?_, congrArg some (Dictionary.ofList_of_ordered ordered)⟩
  refine (Option.mapM_map_eq_some ?_).trans (congrArg some (List.map_id' catalogue))
  intro entry _
  simp [DocumentedModule.ofJson?_toJson]

theorem textual_toJson (catalogue : Catalogue) : Textual catalogue.toJson := by
  apply Textual.object
  intro member among
  obtain ⟨entry, -, rfl⟩ := List.mem_map.mp among
  exact entry.2.textual_toJson

theorem read_printed {catalogue : Catalogue} (ordered : Dictionary.Ordered catalogue) :
    (Json.parse (catalogue.toJson.pretty ++ ['\n'])).bind ofJson? = some catalogue := by
  rw [parse_pretty catalogue.textual_toJson, Option.bind_some, ofJson?_toJson ordered]

end Catalogue

end TerraDoc
