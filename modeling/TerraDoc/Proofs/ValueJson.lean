import TerraDoc.Proofs.JsonText
import TerraDoc.Proofs.NumberText
import TerraDoc.Proofs.Results
import TerraDoc.Proofs.ValueExpression
import TerraDoc.Value.Json

/-!
The JSON form of a value is a normal form: a value is read back from its text, and what is read
from any text is a value of which this can be said.
-/

namespace TerraDoc.Value

theorem itemsToJson_eq (items : List Value) : itemsToJson items = items.map toJson := by
  induction items with
  | nil => rfl
  | cons item items inductionHypothesis =>
    rw [itemsToJson, inductionHypothesis, List.map_cons]

theorem entriesToJson_eq (entries : List (String × Value)) :
    entriesToJson entries = entries.map fun entry => (entry.1, entry.2.toJson) := by
  induction entries with
  | nil => rfl
  | cons entry entries inductionHypothesis =>
    rw [entriesToJson, inductionHypothesis, List.map_cons]

/-- The kind of a value, and its content. -/
def kindOf : Value → String
  | .str _ => "str"
  | .num _ => "num"
  | .bool _ => "bool"
  | .seq _ => "seq"
  | .map _ => "map"

def contentOf : Value → Json
  | .str text => .string text
  | .num n => .string n.toString
  | .bool b => .bool b
  | .seq items => .array (items.map toJson)
  | .map entries => .object (entries.map fun entry => (entry.1, entry.2.toJson))

theorem toJson_eq (value : Value) :
    value.toJson = .object [("type", .string value.kindOf), ("value", value.contentOf)] := by
  cases value with
  | str | num | bool => rw [toJson, kindOf, contentOf]
  | seq items => rw [toJson, kindOf, contentOf, itemsToJson_eq]
  | map entries => rw [toJson, kindOf, contentOf, entriesToJson_eq]

theorem textual_toJson (value : Value) : Json.Textual value.toJson := by
  have tagged {value : Value} (content : Json.Textual value.contentOf) :
      Json.Textual value.toJson := by
    rw [toJson_eq]
    refine .object fun member among => ?_
    rcases List.mem_cons.mp among with rfl | among
    · exact .string _
    · rw [List.mem_singleton.mp among]
      exact content
  induction value using Value.induction with
  | str text => exact tagged (.string text)
  | num n => exact tagged (.string n.toString)
  | bool b => exact tagged (.bool b)
  | seq items inductionHypothesis =>
    exact tagged (.array (List.forall_mem_map.mpr inductionHypothesis))
  | map entries inductionHypothesis =>
    exact tagged (.object (List.forall_mem_map.mpr inductionHypothesis))

theorem depthOfItems_le_iff (items : List Json) (levels : Nat) :
    depthOfItems items ≤ levels ↔ ∀ item ∈ items, depth item ≤ levels := by
  induction items with
  | nil => simp [depthOfItems]
  | cons item items inductionHypothesis =>
    rw [depthOfItems, Nat.max_le, inductionHypothesis, List.forall_mem_cons]

theorem depthOfMembers_le_iff (members : List (String × Json)) (levels : Nat) :
    depthOfMembers members ≤ levels ↔ ∀ member ∈ members, depth member.2 ≤ levels := by
  induction members with
  | nil => simp [depthOfMembers]
  | cons member members inductionHypothesis =>
    rw [depthOfMembers, Nat.max_le, inductionHypothesis, List.forall_mem_cons]

theorem depth_array_le_iff (items : List Json) (levels : Nat) :
    depth (.array items) ≤ levels + 1 ↔ ∀ item ∈ items, depth item ≤ levels := by
  rw [depth, Nat.add_le_add_iff_right, depthOfItems_le_iff]

theorem depth_object_le_iff (members : List (String × Json)) (levels : Nat) :
    depth (.object members) ≤ levels + 1 ↔ ∀ member ∈ members, depth member.2 ≤ levels := by
  rw [depth, Nat.add_le_add_iff_right, depthOfMembers_le_iff]

theorem depth_item_lt {items : List Json} {item : Json} (member : item ∈ items) :
    depth item < depth (.array items) := by
  rw [depth, Nat.lt_succ_iff]
  exact (depthOfItems_le_iff items _).mp le_rfl item member

theorem depth_member_lt {members : List (String × Json)} {member : String × Json}
    (among : member ∈ members) : depth member.2 < depth (.object members) := by
  rw [depth, Nat.lt_succ_iff]
  exact (depthOfMembers_le_iff members _).mp le_rfl member among

theorem depth_toJson (value : Value) : depth value.toJson = depth value.contentOf + 1 := by
  rw [toJson_eq, depth, depthOfMembers, depthOfMembers, depthOfMembers]
  simp [depth]

theorem tagged?_toJson (value : Value) (levels : Nat) :
    tagged? (.direct (levels + 1)) value.toJson =
      some (value.kindOf, value.contentOf, .direct levels) := by
  rw [toJson_eq]
  rfl

theorem ofJsonAt_toJson_of_content {value : Value}
    (content : ∀ bound levels, depth value.contentOf ≤ bound → depth value.contentOf ≤ levels →
      ofContent? (ofJsonAt bound) (.direct levels) value.kindOf value.contentOf = some value)
    {bound levels : Nat} (deep : depth value.toJson ≤ bound)
    (shallow : depth value.toJson ≤ levels) :
    ofJsonAt bound (.direct levels) value.toJson = some value := by
  rw [depth_toJson] at deep shallow
  obtain ⟨bound, rfl⟩ := Nat.exists_eq_succ_of_ne_zero (Nat.ne_zero_of_lt deep)
  obtain ⟨levels, rfl⟩ := Nat.exists_eq_succ_of_ne_zero (Nat.ne_zero_of_lt shallow)
  rw [ofJsonAt, tagged?_toJson, Option.bind_eq_bind, Option.bind_some]
  exact content bound levels (Nat.le_of_succ_le_succ deep) (Nat.le_of_succ_le_succ shallow)

theorem hasUnpairedKey_entries (entries : List (String × Value)) :
    hasUnpairedKey (entries.map fun entry => (entry.1, entry.2.toJson)) = false := by
  rw [hasUnpairedKey, List.any_eq_false]
  intro member among
  obtain ⟨entry, -, rfl⟩ := List.mem_map.mp among
  rw [toJson_eq]
  simp

/-- A value within the depth that is read is read back. -/
theorem ofJsonAt_toJson {value : Value} (sound : value.Sound) {bound levels : Nat}
    (deep : depth value.toJson ≤ bound) (shallow : depth value.toJson ≤ levels) :
    ofJsonAt bound (.direct levels) value.toJson = some value := by
  induction sound generalizing bound levels with
  | str text => exact ofJsonAt_toJson_of_content (fun _ _ _ _ => rfl) deep shallow
  | num n within =>
    refine ofJsonAt_toJson_of_content (fun _ _ _ _ => ?_) deep shallow
    rw [kindOf, contentOf, ofContent?, Number.toString, String.toList_ofList,
      Number.parse_text within]
    rfl
  | bool b => exact ofJsonAt_toJson_of_content (fun _ _ _ _ => rfl) deep shallow
  | seq items each inductionHypothesis =>
    refine ofJsonAt_toJson_of_content (fun bound levels deep shallow => ?_) deep shallow
    rw [contentOf] at deep shallow
    cases levels with
    | zero => rw [depth] at shallow; cases shallow
    | succ levels =>
      rw [depth_array_le_iff] at shallow
      have read : (items.map toJson).mapM (ofJsonAt bound (.direct levels)) =
          some (items.map id) :=
        Option.mapM_map_eq_some fun item member =>
          have among := List.mem_map_of_mem member
          inductionHypothesis item member ((depth_item_lt among).le.trans deep) (shallow _ among)
      rw [kindOf, contentOf, ofContent?, Reading.inside?, Option.bind_eq_bind, Option.bind_some,
        read, List.map_id]
      rfl
  | map entries ordered each inductionHypothesis =>
    refine ofJsonAt_toJson_of_content (fun bound levels deep shallow => ?_) deep shallow
    rw [contentOf] at deep shallow
    cases levels with
    | zero => rw [depth] at shallow; cases shallow
    | succ levels =>
      rw [depth_object_le_iff] at shallow
      rw [kindOf, contentOf, ofContent?, Reading.inside?, Option.bind_eq_bind, Option.bind_some,
        hasUnpairedKey_entries, if_neg (by decide), Option.mapM_map_eq_some (h := id), List.map_id,
        Option.bind_eq_bind, Option.bind_some, Dictionary.ofList_of_ordered ordered]
      · rfl
      · intro entry member
        have among := List.mem_map_of_mem (f := fun entry => (entry.1, entry.2.toJson)) member
        have one := inductionHypothesis entry member ((depth_member_lt among).le.trans deep)
          (shallow _ among)
        simp only [one]
        rfl

/-- How deep the written form of what is read from a part of a text can be. -/
def Reading.budget : Reading → Json → Nat
  | .direct levels, _ => levels
  | .kept, json => depth json

mutual

theorem depth_le_of_keepable : ∀ (levels : Nat) (json : Json), keepable levels json = true →
    depth json ≤ levels
  | levels, .array items, kept => by
    rw [keepable, Bool.and_eq_true, decide_eq_true_eq] at kept
    have inside := depthOfItems_le_of_keepable (levels - 1) items kept.2
    rw [depth]
    omega
  | levels, .object members, kept => by
    rw [keepable, Bool.and_eq_true, decide_eq_true_eq] at kept
    have inside := depthOfMembers_le_of_keepable (levels - 1) members kept.2
    rw [depth]
    omega
  | _, .null, _ | _, .bool _, _ | _, .number _, _ | _, .string _, _ | _, .unpaired, _ => by
    simp [depth]

theorem depthOfItems_le_of_keepable : ∀ (levels : Nat) (items : List Json),
    keepableItems levels items = true → depthOfItems items ≤ levels
  | _, [], _ => Nat.zero_le _
  | levels, item :: items, kept => by
    rw [keepableItems, Bool.and_eq_true] at kept
    exact Nat.max_le.mpr ⟨depth_le_of_keepable levels item kept.1,
      depthOfItems_le_of_keepable levels items kept.2⟩

theorem depthOfMembers_le_of_keepable : ∀ (levels : Nat) (members : List (String × Json)),
    keepableMembers levels members = true → depthOfMembers members ≤ levels
  | _, [], _ => Nat.zero_le _
  | levels, (_, value) :: members, kept => by
    rw [keepableMembers, Bool.and_eq_true] at kept
    exact Nat.max_le.mpr ⟨depth_le_of_keepable levels value kept.1,
      depthOfMembers_le_of_keepable levels members kept.2⟩

end

theorem Reading.budget_inside {reading inside : Reading} (enters : reading.inside? = some inside)
    (part whole : Json) (smaller : depth part < depth whole) :
    inside.budget part < reading.budget whole := by
  cases reading with
  | direct levels =>
    cases levels with
    | zero => cases enters
    | succ levels =>
      cases enters
      exact Nat.lt_succ_self levels
  | kept =>
    cases enters
    exact smaller

theorem Reading.exists_budget_inside {reading inside : Reading}
    (enters : reading.inside? = some inside) (whole : Json) (nests : 0 < depth whole) :
    ∃ levels, reading.budget whole = levels + 1 := by
  have room := budget_inside enters .null whole nests
  exact ⟨reading.budget whole - 1, by omega⟩

theorem Reading.budget_keep {reading after : Reading} {json : Json}
    (keeps : reading.keep? json = some after) : after.budget json ≤ reading.budget json := by
  cases reading with
  | direct levels =>
    rw [keep?] at keeps
    split at keeps
    · cases keeps
      exact depth_le_of_keepable levels json ‹_›
    · cases keeps
  | kept =>
    cases keeps
    exact le_rfl

/-- The content of a value has less depth left than the value. -/
theorem budget_tagged? {reading inside : Reading} {json content : Json} {kind : String}
    (tagged : tagged? reading json = some (kind, content, inside)) :
    inside.budget content < reading.budget json := by
  unfold tagged? at tagged
  split at tagged
  · obtain ⟨within, enters, tagged⟩ := Option.bind_eq_some_iff.mp tagged
    obtain ⟨name, -, tagged⟩ := Option.bind_eq_some_iff.mp tagged
    cases tagged
    exact Reading.budget_inside enters _ _ (depth_item_lt (by simp))
  · rename_i members
    obtain ⟨within, enters, tagged⟩ := Option.bind_eq_some_iff.mp tagged
    split at tagged
    · cases tagged
    split at tagged
    · rename_i found
      obtain ⟨name, -, tagged⟩ := Option.bind_eq_some_iff.mp tagged
      cases tagged
      have among : ("value", content) ∈ members := List.mem_of_mem_filter (by rw [found]; simp)
      exact Reading.budget_inside enters _ _ (depth_member_lt among)
    · rename_i found
      obtain ⟨name, -, tagged⟩ := Option.bind_eq_some_iff.mp tagged
      obtain ⟨after, keeps, tagged⟩ := Option.bind_eq_some_iff.mp tagged
      cases tagged
      have among : ("value", content) ∈ members := List.mem_of_mem_filter (by rw [found]; simp)
      exact (Reading.budget_keep keeps).trans_lt
        (Reading.budget_inside enters _ _ (depth_member_lt among))
    · cases tagged
  · cases tagged

/-- A value that can be written within the depth that is left for a part of a text. -/
structure Writable (value : Value) (reading : Reading) (json : Json) : Prop where
  sound : value.Sound
  shallow : depth value.toJson ≤ reading.budget json

theorem writable_ofContent? {read : Reading → Json → Option Value}
    (reads : ∀ reading json value, read reading json = some value → value.Writable reading json)
    {reading : Reading} {kind : String} {content : Json} {value : Value}
    (found : ofContent? read reading kind content = some value) :
    value.Sound ∧ depth value.contentOf ≤ reading.budget content := by
  unfold ofContent? at found
  split at found
  · cases found
    exact ⟨.str _, Nat.zero_le _⟩
  · obtain ⟨n, parsed, rfl⟩ := Option.map_eq_some_iff.mp found
    exact ⟨.num n (Number.Built.parsed _ n (Except.toOption_eq_some.mp parsed)).inRange,
      Nat.zero_le _⟩
  · cases found
    exact ⟨.bool _, Nat.zero_le _⟩
  · rename_i items
    obtain ⟨inside, enters, found⟩ := Option.bind_eq_some_iff.mp found
    obtain ⟨values, each, found⟩ := Option.bind_eq_some_iff.mp found
    cases found
    have parts : ∀ item ∈ values,
        item.Sound ∧ depth item.toJson < reading.budget (.array items) := by
      intro item member
      obtain ⟨part, among, found⟩ := Option.mem_of_mapM_eq_some each member
      have writable := reads _ _ _ found
      exact ⟨writable.sound,
        writable.shallow.trans_lt (Reading.budget_inside enters _ _ (depth_item_lt among))⟩
    refine ⟨.seq values fun item member => (parts item member).1, ?_⟩
    obtain ⟨levels, room⟩ :=
      Reading.exists_budget_inside enters (.array items) (by simp [depth])
    rw [room, contentOf, depth_array_le_iff, List.forall_mem_map]
    intro item member
    have less := (parts item member).2
    omega
  · rename_i members
    obtain ⟨inside, enters, found⟩ := Option.bind_eq_some_iff.mp found
    split at found
    · cases found
    obtain ⟨entries, each, found⟩ := Option.bind_eq_some_iff.mp found
    cases found
    have parts : ∀ entry ∈ Dictionary.ofList entries,
        entry.2.Sound ∧ depth entry.2.toJson < reading.budget (.object members) := by
      intro entry member
      obtain ⟨⟨key, part⟩, among, here⟩ :=
        Option.mem_of_mapM_eq_some each (Dictionary.mem_ofList member)
      obtain ⟨value, found, same⟩ := Option.bind_eq_some_iff.mp here
      cases same
      have writable := reads _ _ _ found
      exact ⟨writable.sound,
        writable.shallow.trans_lt (Reading.budget_inside enters _ _ (depth_member_lt among))⟩
    refine ⟨.map _ (Dictionary.ordered_ofList entries) fun entry member =>
      (parts entry member).1, ?_⟩
    obtain ⟨levels, room⟩ :=
      Reading.exists_budget_inside enters (.object members) (by simp [depth])
    rw [room, contentOf, depth_object_le_iff, List.forall_mem_map]
    intro entry member
    have less := (parts entry member).2
    change depth entry.2.toJson ≤ levels
    omega
  · cases found

theorem writable_ofJsonAt {bound : Nat} {reading : Reading} {json : Json} {value : Value}
    (read : ofJsonAt bound reading json = some value) : value.Writable reading json := by
  induction bound generalizing reading json value with
  | zero => cases read
  | succ bound inductionHypothesis =>
    obtain ⟨⟨kind, content, inside⟩, tagged, found⟩ := Option.bind_eq_some_iff.mp read
    obtain ⟨sound, shallow⟩ :=
      writable_ofContent? (fun _ _ _ read => inductionHypothesis read) found
    refine ⟨sound, ?_⟩
    rw [depth_toJson]
    exact shallow.trans_lt (budget_tagged? tagged)

theorem parseJson?_compact {value : Value} (sound : value.Sound)
    (shallow : depth value.toJson ≤ maxLevels) : parseJson? value.toJson.compact = some value := by
  rw [parseJson?, Json.parse_compact (textual_toJson value), Option.bind_eq_bind,
    Option.bind_some, ofJson?]
  exact ofJsonAt_toJson sound (Nat.le_succ _) shallow

/-- The JSON form of a value is read back as this value if it nests no deeper than what is read;
and what is read from any text is a value whose own form is read back as it. -/
theorem json_read_back :
    (∀ value : Value, value.Sound → depth value.toJson ≤ maxLevels →
      parseJson? value.toJson.compact = some value) ∧
    (∀ (text : List Char) (value : Value), parseJson? text = some value →
      parseJson? value.toJson.compact = some value) := by
  refine ⟨fun value sound shallow => parseJson?_compact sound shallow, fun text value read => ?_⟩
  obtain ⟨json, -, found⟩ := Option.bind_eq_some_iff.mp read
  have writable := writable_ofJsonAt found
  exact parseJson?_compact writable.sound writable.shallow

/-- A map of a negative decimal and of a text with a quote; and a form whose members stand in
another order, with a key that comes twice. -/
theorem json_read_back_map :
    let value : Value := .map [("a", .num ⟨true, 15, -1, by decide⟩), ("b", .seq [.str "\"\n"])]
    let json : Json := .object [("value", .object [("b", .array [.string "bool", .bool true]),
      ("b", .object [("type", .string "str"), ("value", .string "A")])]), ("type", .string "map")]
    let read : Value := .map [("b", .str "A")]
    value.Sound ∧ depth value.toJson ≤ maxLevels ∧
      parseJson? value.toJson.compact = some value ∧
      parseJson? json.compact = some read ∧ parseJson? read.toJson.compact = some read := by
  intro value json read
  have sound : value.Sound := by
    refine .map _ (List.pairwise_pair.mpr (by decide)) fun entry membership => ?_
    rcases List.mem_cons.mp membership with rfl | membership
    · exact .num _ (by decide +kernel)
    · rw [List.mem_singleton.mp membership]
      refine .seq _ fun item membership => ?_
      rw [List.mem_singleton.mp membership]
      exact .str _
  have shallow : depth value.toJson ≤ maxLevels := by decide
  have found : parseJson? json.compact = some read := by
    rw [parseJson?, Json.parse_compact]
    · rfl
    · refine .object (List.forall_mem_cons.mpr ⟨.object ?_, by simp [Json.Textual.string]⟩)
      simp [Json.Textual.string, Json.Textual.bool, Json.Textual.array, Json.Textual.object]
  exact ⟨sound, shallow, json_read_back.1 value sound shallow, found,
    json_read_back.2 json.compact read found⟩

end TerraDoc.Value
