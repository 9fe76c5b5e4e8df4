import ViewBuilder.Proofs.Registry.Changes
import ViewBuilder.Proofs.Tab.Store

/-!
# Tabs stay what they are

A tab and its permission share one object, in which no key of the one is a key of the other. So a
list of tabs is read from the registry as it was stored, also after other paths have changed, and
the keys of a permission tell whether a tab is guarded.
-/

namespace ViewBuilder

/-! ## The object of a tab -/

def TabPermission.keys : List Text :=
  ["permission".toList, "lang_permission".toList, "lang_permission_desc".toList,
   "lang_permission_title".toList, "sortKey".toList]

namespace CustomTab

def ownKeys : List Text :=
  ["view".toList, "name".toList, "code".toList, "html".toList, "lang".toList]

theorem keys_toJson (tab : CustomTab) :
    tab.toJson.keys = ownKeys ++ if tab.permission.isSome then TabPermission.keys else [] := by
  unfold toJson
  cases tab.permission with
  | none => rfl
  | some p => rfl

/-- No field of a permission takes the place of a field of its tab. -/
theorem nodup_keys_append : (ownKeys ++ TabPermission.keys).Nodup := by
  unfold ownKeys TabPermission.keys
  decide

theorem not_mem_ownKeys {key : Text} (h : key ∈ TabPermission.keys) : key ∉ ownKeys :=
  fun hown => (List.nodup_append.1 nodup_keys_append).2.2 key hown key h rfl

theorem mem_keys_toJson_iff (tab : CustomTab) {key : Text} (h : key ∈ TabPermission.keys) :
    key ∈ tab.toJson.keys ↔ tab.permission.isSome = true := by
  rw [keys_toJson, List.mem_append, or_iff_right (not_mem_ownKeys h)]
  split
  · rename_i hguarded
    simp only [h, hguarded]
  · rename_i hplain
    simp [hplain]

theorem distinctKeys_listToJson (tabs : List CustomTab) : (listToJson tabs).DistinctKeys :=
  Json.distinctKeys_of_entries?_eq_none rfl

end CustomTab

/-! ## In the registry -/

namespace Registry

variable {registry : Registry} {path : RegistryPath} {tabs : List CustomTab}

theorem getAs_of_get?_listToJson (htabs : ∀ tab ∈ tabs, tab.Writable)
    (h : registry.get? path = some (CustomTab.listToJson tabs)) :
    registry.getAs CustomTab.listOfJson? path = .ok (some tabs) :=
  getAs_of_get? h rfl (CustomTab.listOfJson?_listToJson htabs)

/-- A list of tabs is read as it was stored, at once and after any changes on paths that diverge
from its own; each tab is stored as one object, which has the keys of a permission, all of them, if
the tab is guarded and none otherwise. -/
theorem getAs_tabs_applyAll (h : registry.DistinctKeys) (path : RegistryPath)
    (tabs : List CustomTab) (htabs : ∀ tab ∈ tabs, tab.Writable) (changes : List Change)
    (hchanges : ∀ change ∈ changes, change.DistinctKeys)
    (hdiverges : ∀ change ∈ changes, change.path.Diverges path) :
    (registry.set path (CustomTab.listToJson tabs)).getAs CustomTab.listOfJson? path =
        .ok (some tabs) ∧
      ((registry.set path (CustomTab.listToJson tabs)).applyAll changes).getAs
        CustomTab.listOfJson? path = .ok (some tabs) ∧
      ((registry.set path (CustomTab.listToJson tabs)).applyAll changes).get? path =
        some (.array (tabs.map CustomTab.toJson)) ∧
      ∀ tab ∈ tabs, ∀ key ∈ TabPermission.keys,
        key ∈ tab.toJson.keys ↔ tab.permission.isSome = true := by
  have hstored := registry.get?_set_self path (CustomTab.listToJson tabs)
  have hkept := (get?_applyAll_of_diverges (h.set path (CustomTab.distinctKeys_listToJson tabs))
    hchanges hdiverges).trans hstored
  refine ⟨getAs_of_get?_listToJson htabs hstored, getAs_of_get?_listToJson htabs hkept, hkept, ?_⟩
  exact fun tab _ key hkey => tab.mem_keys_toJson_iff hkey

/-- Two tabs of a view, of which the second is guarded. -/
def twoTabs : List CustomTab :=
  [⟨"items", "One", "one", "<p>", "L_ITEMS_ONE", none⟩,
   ⟨"items", "Two", "two", "", "L_ITEMS_TWO",
    some ⟨255, "P", "P_DESC", "Items View Two Tab", "items_view_two_tab"⟩⟩]

/-- The tabs stand where the last of three entries was, and move to the front as the first goes. -/
theorem getAs_tabs_applyAll_trio :
    ∃ zk zl zm : RegistryPath, zk.text = "z.k".toList ∧ zl.text = "z.l".toList ∧
      zm.text = "z.m".toList ∧
      ((trio.set zm (CustomTab.listToJson twoTabs)).applyAll
        [.remove zk, .set zl (.object [])]).getAs CustomTab.listOfJson? zm = .ok (some twoTabs) ∧
      ∀ tab ∈ twoTabs, "sortKey".toList ∈ tab.toJson.keys ↔ tab.permission.isSome = true := by
  let zk : RegistryPath := ⟨["z".toList, "k".toList], by decide, by decide⟩
  let zl : RegistryPath := ⟨["z".toList, "l".toList], by decide, by decide⟩
  let zm : RegistryPath := ⟨["z".toList, "m".toList], by decide, by decide⟩
  have htabs : ∀ tab ∈ twoTabs, tab.Writable := by
    simp [twoTabs, CustomTab.Writable]
  have hnew : (Json.object []).DistinctKeys := distinctKeys_empty
  obtain ⟨-, hkept, -, hkeys⟩ := getAs_tabs_applyAll distinctKeys_trio zm twoTabs htabs
    [.remove zk, .set zl (.object [])]
    (by simp [Change.DistinctKeys, hnew])
    (by simp [Change.path, RegistryPath.Diverges, zk, zl, zm])
  refine ⟨zk, zl, zm, rfl, rfl, rfl, hkept, fun tab hmem => hkeys tab hmem _ ?_⟩
  simp [TabPermission.keys]

end Registry

end ViewBuilder
