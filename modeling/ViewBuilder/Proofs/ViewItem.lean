import ViewBuilder.Proofs.Json.ReadBack
import ViewBuilder.ViewItem

/-!
# Items and settings that are read back

What is written of a view item, or of the settings of a run, is read as the same again: a field is
left out only where its absence is read as the value that it has. The further fields of an item
stay what they are, in their order.
-/

namespace ViewBuilder

open Json (keys_optionalField_sublist get?_optionalField)
open Json.Document

/-! ## Settings -/

theorem BuildTarget.name?_name (target : BuildTarget) :
    name? ofName? (.ofJson (.string target.name)) = some target := by
  cases target <;> decide

theorem Scope.name?_name (scope : Scope) :
    name? ofName? (.ofJson (.string scope.name)) = some scope := by
  cases scope <;> decide

namespace Config

theorem keys_fields_sublist (config : Config) : (Entries.keys config.fields).Sublist fieldNames := by
  rw [fields, Entries.keys, List.map_cons, List.map_cons, List.map_cons, List.map_append]
  refine ((List.Sublist.cons_cons _ ?_).cons_cons _).cons_cons _
  exact (keys_optionalField_sublist _ _).append (keys_optionalField_sublist _ _)

theorem get?_componentCode (config : Config) :
    Entries.get? "component_code".toList config.fields = config.componentCode.map .string := by
  simp [fields, Entries.get?, Entries.get?_append, get?_optionalField]

theorem get?_maxResolveDepth (config : Config) :
    Entries.get? "max_resolve_depth".toList config.fields =
      if config.maxResolveDepth = 32 then none else some (.nat config.maxResolveDepth) := by
  simp [fields, Entries.get?, Entries.get?_append, get?_optionalField]

theorem ofDocument?_eq_some_iff {document : Json.Document} {config : Config} :
    ofDocument? document = some config ↔
      ∃ fields, recordFields? fieldNames document = some fields ∧
        fields.required? "lang_prefix" text? = some config.langPrefix ∧
        fields.withDefault? "build_target" .admin (name? BuildTarget.ofName?) =
          some config.buildTarget ∧
        fields.withDefault? "lang_target" .both (name? Scope.ofName?) = some config.langTarget ∧
        fields.optional? "component_code" text? = some config.componentCode ∧
        fields.withDefault? "max_resolve_depth" 32 nat? = some config.maxResolveDepth := by
  obtain ⟨langPrefix, buildTarget, langTarget, componentCode, maxResolveDepth⟩ := config
  simp [ofDocument?, Option.bind_eq_some_iff]

theorem ofJson?_toJson (config : Config) : ofJson? config.toJson = some config := by
  refine ofDocument?_eq_some_iff.2 ⟨ofEntries config.fields, ?_, ?_, ?_, ?_, ?_, ?_⟩
  · exact objectFields?_ofEntries fieldNames (config.keys_fields_sublist.nodup (by decide))
  · exact Fields.required?_ofEntries rfl rfl
  · exact Fields.withDefault?_ofEntries_of_written rfl config.buildTarget.name?_name
  · exact Fields.withDefault?_ofEntries_of_written rfl config.langTarget.name?_name
  · exact Fields.optional?_ofEntries_text config.get?_componentCode
  · exact Fields.withDefault?_ofEntries config.get?_maxResolveDepth Eq.symm (nat?_ofJson_nat _)

end Config

/-! ## View items -/

namespace ViewItem

theorem ofDocument?_eq_some_iff {document : Json.Document} {item : ViewItem} :
    ofDocument? document = some item ↔
      ∃ fields, objectFields? fieldNames document = some fields ∧
        fields.required? "name_single_code" text? = some item.singleCode ∧
        fields.optional? "name_list_code" text? = some item.listCode? ∧
        fields.optional? "name_single" text? = some item.singleName ∧
        fields.optional? "name_list" text? = some item.listName ∧
        fields.optional? "customtabs" value? = some item.customTabs ∧
        fields.withDefault? "markup" [] (list? text?) = some item.markup ∧
        ∃ extra, entryValues? (fields.filter fun entry => !fieldNames.contains entry.1) =
          some extra ∧ Entries.collapse extra = item.extra := by
  obtain ⟨singleCode, listCode?, singleName, listName, customTabs, markup, extra⟩ := item
  simp [ofDocument?, Option.bind_eq_some_iff]

/-! ### Writing -/

/-- An item that JSON can hold: no further field has the name of one of its own, and its tabs are not
null, which is read as no tabs. Besides, what stands for an object has no key twice. -/
structure Writable (item : ViewItem) : Prop where
  extra_wellFormed : (Json.object item.extra).WellFormed
  extra_unknown : ∀ name ∈ fieldNames, name ∉ Entries.keys item.extra
  customTabs_wellFormed : ∀ value ∈ item.customTabs, value.WellFormed
  customTabs_ne_null : item.customTabs ≠ some .null

variable {item : ViewItem}

theorem keys_ownFields_sublist (item : ViewItem) :
    (Entries.keys item.ownFields).Sublist fieldNames := by
  rw [ownFields, Entries.keys, List.map_cons, List.map_append, List.map_append, List.map_append,
    List.map_append]
  refine List.Sublist.cons_cons _ ?_
  exact ((((keys_optionalField_sublist _ _).append (keys_optionalField_sublist _ _)).append
    (keys_optionalField_sublist _ _)).append (keys_optionalField_sublist _ _)).append
    (keys_optionalField_sublist _ _)

theorem Writable.nodup_keys (h : item.Writable) :
    (Entries.keys (item.ownFields ++ item.extra)).Nodup := by
  rw [Entries.keys, List.map_append, List.nodup_append]
  refine ⟨item.keys_ownFields_sublist.nodup (by decide), h.extra_wellFormed.nodup, ?_⟩
  rintro own hown _ hextra rfl
  exact h.extra_unknown own (item.keys_ownFields_sublist.subset hown) hextra

theorem Writable.filter_append (h : item.Writable) :
    (item.ownFields ++ item.extra).filter (fun entry => !fieldNames.contains entry.1) =
      item.extra := by
  have hown : item.ownFields.filter (fun entry => !fieldNames.contains entry.1) = [] := by
    refine List.filter_eq_nil_iff.2 fun entry hentry => ?_
    have hknown := item.keys_ownFields_sublist.subset (List.mem_map_of_mem hentry)
    simpa using hknown
  have hextra : item.extra.filter (fun entry => !fieldNames.contains entry.1) = item.extra := by
    refine List.filter_eq_self.2 fun entry hentry => ?_
    have hunknown (hknown : entry.1 ∈ fieldNames) :=
      h.extra_unknown entry.1 hknown (List.mem_map_of_mem hentry)
    simpa using hunknown
  rw [List.filter_append, hown, hextra, List.nil_append]

theorem Writable.get?_own (h : item.Writable) {name : String} {value? : Option Json}
    (hname : name.toList ∈ fieldNames) (hget : Entries.get? name.toList item.ownFields = value?) :
    Entries.get? name.toList (item.ownFields ++ item.extra) = value? := by
  rw [Entries.get?_append, hget, Entries.get?_eq_none_iff.2 (h.extra_unknown _ hname),
    Option.or_none]

theorem get?_ownFields (item : ViewItem) :
    Entries.get? "name_list_code".toList item.ownFields = item.listCode?.map .string ∧
      Entries.get? "name_single".toList item.ownFields = item.singleName.map .string ∧
      Entries.get? "name_list".toList item.ownFields = item.listName.map .string ∧
      Entries.get? "customtabs".toList item.ownFields = item.customTabs ∧
      Entries.get? "markup".toList item.ownFields =
        if item.markup.isEmpty then none else some (.texts item.markup) := by
  simp [ownFields, Entries.get?, Entries.get?_append, get?_optionalField]

theorem Writable.ofJson?_toJson (h : item.Writable) : ofJson? item.toJson = some item := by
  obtain ⟨hlistCode, hsingleName, hlistName, hcustomTabs, hmarkup⟩ := item.get?_ownFields
  refine ofDocument?_eq_some_iff.2
    ⟨ofEntries (item.ownFields ++ item.extra), ?_, ?_, ?_, ?_, ?_, ?_, ?_, item.extra, ?_, ?_⟩
  · exact objectFields?_ofEntries fieldNames h.nodup_keys
  · exact Fields.required?_ofEntries rfl rfl
  · exact Fields.optional?_ofEntries_text (h.get?_own (by decide) hlistCode)
  · exact Fields.optional?_ofEntries_text (h.get?_own (by decide) hsingleName)
  · exact Fields.optional?_ofEntries_text (h.get?_own (by decide) hlistName)
  · have hwritten : Entries.get? "customtabs".toList (item.ownFields ++ item.extra) =
        item.customTabs.map id := by
      rw [h.get?_own (by decide) hcustomTabs, Option.map_id_apply]
    refine Fields.optional?_ofEntries hwritten fun value hvalue =>
      ⟨?_, value?_ofJson (h.customTabs_wellFormed value hvalue)⟩
    rintro rfl
    exact h.customTabs_ne_null hvalue
  · exact Fields.withDefault?_ofEntries (h.get?_own (by decide) hmarkup)
      (fun hempty => (List.isEmpty_iff.1 hempty).symm) (list?_ofJson_texts item.markup)
  · rw [filter_ofEntries fun name => !fieldNames.contains name, h.filter_append]
    exact entryValues?_ofEntries fun entry hmem =>
      value?_ofJson (h.extra_wellFormed.values entry hmem)
  · exact Entries.collapse_eq_self h.extra_wellFormed.nodup

/-! ### Reading -/

/-- An item that is read can be written, whatever the document says. -/
theorem writable_of_ofDocument? {document : Json.Document}
    (h : ofDocument? document = some item) : item.Writable := by
  obtain ⟨fields, -, -, -, -, -, hcustomTabs, -, extra, hextra, hitem⟩ :=
    ofDocument?_eq_some_iff.1 h
  constructor
  case extra_wellFormed =>
    rw [← hitem]
    exact .object (Entries.nodup_keys_collapse extra) fun entry hmem =>
      wellFormed_of_entryValues? _ hextra entry (Entries.mem_of_mem_collapse hmem)
  case extra_unknown =>
    rw [← hitem]
    intro name hname hmem
    obtain ⟨entry, hentry, rfl⟩ := List.mem_map.1 hmem
    have hkey := List.mem_map_of_mem (f := Prod.fst) (Entries.mem_of_mem_collapse hentry)
    rw [← Entries.keys, keys_of_entryValues? hextra] at hkey
    obtain ⟨field, hfield, hsame⟩ := List.mem_map.1 hkey
    have hunknown := (List.mem_filter.1 hfield).2
    rw [hsame] at hunknown
    simp [hname] at hunknown
  case customTabs_wellFormed =>
    intro value hvalue
    rw [hvalue] at hcustomTabs
    obtain ⟨tabs, -, htabs⟩ := Fields.exists_of_optional?_eq_some hcustomTabs
    exact wellFormed_of_value? tabs htabs
  case customTabs_ne_null =>
    intro hnull
    rw [hnull] at hcustomTabs
    obtain ⟨tabs, hne, htabs⟩ := Fields.exists_of_optional?_eq_some hcustomTabs
    exact hne (value?_eq_null_iff.1 htabs)

/-- The entries of an object that are not known by name. -/
def furtherFields (value : Json) : List (Text × Json) :=
  (value.entries?.getD []).filter fun entry => !fieldNames.contains entry.1

theorem extra_eq_furtherFields {document : Json.Document} {value : Json}
    (hvalue : document.value? = some value) (h : ofDocument? document = some item) :
    item.extra = furtherFields value := by
  obtain ⟨fields, hfields, -, -, -, -, -, -, extra, hextra, hitem⟩ := ofDocument?_eq_some_iff.1 h
  obtain rfl := eq_object_of_objectFields? hfields
  rw [value?, Option.map_eq_some_iff] at hvalue
  obtain ⟨values, hvalues, rfl⟩ := hvalue
  rw [entryValues?_filter (fun name => !fieldNames.contains name) hvalues] at hextra
  rw [← hitem, ← Option.some.inj hextra]
  exact Entries.collapse_filter (fun name => !fieldNames.contains name) values

/-- What is written is read as the same again. An item needs to be one that can be written, which
is the case for every item that is read; so reading, writing and reading again is reading once,
and the further fields of the value that was read are written again in their order. -/
theorem json_round_trip :
    (∀ item : ViewItem, ofJson? item.toJson = some item ↔ item.Writable) ∧
      (∀ config : Config, Config.ofJson? config.toJson = some config) ∧
      (∀ document item, ofDocument? document = some item → item.Writable) ∧
      ∀ value item, value.WellFormed → ofJson? value = some item →
        ofJson? item.toJson = ofJson? value ∧ item.extra = furtherFields value ∧
          furtherFields item.toJson = furtherFields value := by
  refine ⟨fun item => ⟨writable_of_ofDocument?, Writable.ofJson?_toJson⟩, Config.ofJson?_toJson,
    fun _ _ => writable_of_ofDocument?, fun value item hvalue h => ?_⟩
  have hwritable : item.Writable := writable_of_ofDocument? h
  have hextra : item.extra = furtherFields value :=
    extra_eq_furtherFields (value?_ofJson hvalue) h
  exact ⟨hwritable.ofJson?_toJson.trans h.symm, hextra, hwritable.filter_append.trans hextra⟩

/-- The own fields come in any order, a name is null, and the tabs are a list that holds null. -/
theorem json_round_trip_shuffled :
    let value : Json := .object [("system_name".toList, .string "Items"),
      ("markup".toList, .texts ["a"]), ("customtabs".toList, .array [.null]),
      ("name_single_code".toList, .string "item"), ("name_list".toList, .null),
      ("add".toList, .object [("b".toList, .nat 1), ("a".toList, .bool true)])]
    let item : ViewItem :=
      { singleCode := "item", customTabs := some (.array [.null]), markup := ["a"],
        extra := [("system_name".toList, .string "Items"),
          ("add".toList, .object [("b".toList, .nat 1), ("a".toList, .bool true)])] }
    value.WellFormed ∧ ofJson? value = some item ∧ ofJson? item.toJson = ofJson? value ∧
      item.extra = furtherFields value ∧ furtherFields item.toJson = furtherFields value := by
  intro value item
  have hvalue : value.WellFormed := wellFormed_of_value? (.ofJson value) rfl
  have hitem : ofJson? value = some item := rfl
  exact ⟨hvalue, hitem, json_round_trip.2.2.2 value item hvalue hitem⟩

end ViewItem

end ViewBuilder
