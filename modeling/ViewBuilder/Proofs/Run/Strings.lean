import ViewBuilder.Proofs.Run.Tabs
import ViewBuilder.Proofs.Text.Identifier

/-!
# The strings of stored tabs

A stored tab has a string for its label, and two more for its permission when it is guarded. The
tabs of a view are compiled in order and a key that is set again has the later text, so the text of
a string is that of the last tab with its key. Two strings have the same key when the codes of their
tabs are the same with what stands behind them.
-/

namespace ViewBuilder

open Text

/-! ## Trimmed texts -/

namespace Text

theorem trimStart_trim (t : Text) : trimStart (trim t) = trim t := by
  have hprefix : trim t <+: t.dropWhile isBlank := List.rdropWhile_prefix isBlank _
  cases htrim : trim t with
  | nil => rfl
  | cons c rest =>
    obtain ⟨more, hmore⟩ := htrim ▸ hprefix
    have hhead := List.head?_dropWhile_not isBlank t
    rw [← hmore] at hhead
    exact List.dropWhile_cons_of_neg (by simpa using hhead)

theorem trim_trim (t : Text) : trim (trim t) = trim t := by
  conv => lhs; rw [trim, trimStart_trim]
  exact List.rdropWhile_idempotent isBlank (trimStart t)

end Text

/-! ## The strings of a tab -/

/-- What a string of a tab is for. -/
inductive StringRole where
  | label
  | title
  | description
deriving DecidableEq

namespace StringRole

/-- What stands behind the code of a tab in the key of a string. -/
def ending : StringRole → Text
  | label => []
  | title => "_tab_permission"
  | description => "_tab_permission_desc"

def all : List StringRole := [label, title, description]

theorem mem_all (role : StringRole) : role ∈ all := by
  cases role <;> decide

theorem eq_of_ending_eq {role other : StringRole} (h : role.ending = other.ending) :
    role = other := by
  revert h
  cases role <;> cases other <;> decide

theorem map_toLower_ending (role : StringRole) : role.ending.map Char.toLower = role.ending := by
  cases role <;> decide

end StringRole

namespace TabContext

open Identifier

variable {context : TabContext} {tab other : CustomTab} {role otherRole : StringRole}
  {key text otherKey otherText : Text} {raws : List RawTab}

/-- The key of a string of a tab and the text that is set for it. -/
def string? (context : TabContext) (tab : CustomTab) : StringRole → Option (Text × Text)
  | .label => some (tab.lang, trim tab.name)
  | .title => tab.permission.map fun p => (p.lang, p.langTitle)
  | .description =>
    tab.permission.map fun p => (p.langDesc, trim (context.permissionDescription tab.name))

def strings (context : TabContext) (tab : CustomTab) : List (Text × Text) :=
  StringRole.all.filterMap (context.string? tab)

theorem mem_strings_iff {entry : Text × Text} :
    entry ∈ context.strings tab ↔ ∃ role, context.string? tab role = some entry := by
  rw [strings, List.mem_filterMap]
  exact exists_congr fun role => and_iff_right role.mem_all

/-- The tabs that are stored for a view. -/
def tabs (context : TabContext) (raws : List RawTab) : List CustomTab :=
  (raws.map context.compileTab).map (·.tab)

theorem mem_tabs_iff :
    tab ∈ context.tabs raws ↔ ∃ raw ∈ raws, (context.compileTab raw).tab = tab := by
  simp [tabs]

theorem permission_compileTab {raw : RawTab} {p : TabPermission}
    (h : (context.compileTab raw).tab.permission = some p) :
    p = context.permission (tabName raw) := by
  change (if raw.guarded then some (context.permission (tabName raw)) else none) = some p at h
  split at h
  · exact (Option.some.inj h).symm
  · cases h

theorem strings_compileTab (context : TabContext) (raw : RawTab) :
    ((context.compileTab raw).strings.map fun (key, text) => (key, trim text)) =
      context.strings (context.compileTab raw).tab := by
  cases hguarded : raw.guarded with
  | false => simp [compileTab, strings, StringRole.all, string?, hguarded]
  | true =>
    simp [compileTab, strings, StringRole.all, string?, hguarded, permission, permissionTitle,
      trim_trim]

theorem tabStrings_eq (context : TabContext) (raws : List RawTab) :
    ((context.tabStrings raws).map fun (key, text) => (key, trim text)) =
      (context.tabs raws).flatMap context.strings := by
  unfold tabStrings tabs
  rw [List.map_flatMap, List.flatMap_map, List.flatMap_map, List.flatMap_map]
  exact List.flatMap_congr fun raw _ => context.strings_compileTab raw

/-! ## Keys that coincide -/

theorem langKey_append_eq_iff {name otherName t u : Text} :
    context.langKey name ++ t = context.langKey otherName ++ u ↔
      ofLabel .upper name ++ t = ofLabel .upper otherName ++ u := by
  unfold langKey
  rw [List.append_assoc, List.append_assoc _ _ u, List.append_right_inj]

theorem key_of_string? {raw : RawTab}
    (h : context.string? (context.compileTab raw).tab role = some (key, text)) :
    key = context.langKey (tabName raw) ++ role.ending.map Char.toUpper := by
  cases role with
  | label =>
    obtain rfl := (Prod.mk.inj (Option.some.inj h)).1
    exact (List.append_nil _).symm
  | title =>
    obtain ⟨p, hp, hentry⟩ := Option.map_eq_some_iff.1 h
    obtain rfl := (Prod.mk.inj hentry).1
    obtain rfl := permission_compileTab hp
    have hending : StringRole.title.ending.map Char.toUpper = "_TAB_PERMISSION" := by decide
    rw [hending]
    rfl
  | description =>
    obtain ⟨p, hp, hentry⟩ := Option.map_eq_some_iff.1 h
    obtain rfl := (Prod.mk.inj hentry).1
    obtain rfl := permission_compileTab hp
    have hending : StringRole.description.ending.map Char.toUpper = "_TAB_PERMISSION_DESC" := by
      decide
    rw [hending]
    rfl

/-- Keys are in capitals and codes in small letters. -/
theorem key_eq_key_iff (htab : tab ∈ context.tabs raws) (hother : other ∈ context.tabs raws)
    (h : context.string? tab role = some (key, text))
    (hstring : context.string? other otherRole = some (otherKey, otherText)) :
    otherKey = key ↔ other.code ++ otherRole.ending = tab.code ++ role.ending := by
  obtain ⟨raw, -, rfl⟩ := mem_tabs_iff.1 htab
  obtain ⟨otherRaw, -, rfl⟩ := mem_tabs_iff.1 hother
  rw [key_of_string? h, key_of_string? hstring, langKey_append_eq_iff, ofLabel_upper_append_eq_iff,
    StringRole.map_toLower_ending, StringRole.map_toLower_ending]
  rfl

/-- No two strings of a tab have the same key. -/
theorem lastIn?_strings (htab : tab ∈ context.tabs raws)
    (h : context.string? tab role = some (key, text)) :
    Table.lastIn? key (context.strings tab) = some text := by
  refine Table.lastIn?_eq_some (mem_strings_iff.2 ⟨role, h⟩) fun other hmem => ?_
  obtain ⟨otherRole, hstring⟩ := mem_strings_iff.1 hmem
  have hending := List.append_cancel_left ((key_eq_key_iff htab htab h hstring).1 rfl)
  obtain rfl := StringRole.eq_of_ending_eq hending
  rw [h] at hstring
  exact (Prod.mk.inj (Option.some.inj hstring)).2.symm

/-- A string of a tab has its own text or that of the last tab behind it with the same key. -/
theorem get?_setAll_tabStrings {front behind : List CustomTab} (table : LanguageTable)
    (htabs : context.tabs raws = front ++ tab :: behind)
    (h : context.string? tab role = some (key, text)) :
    (table.setAll (context.tabStrings raws)).get? .both key =
      some ((Table.lastIn? key (behind.flatMap context.strings)).getD text) := by
  have htab : tab ∈ context.tabs raws := by simp [htabs]
  rw [LanguageTable.get?_setAll, tabStrings_eq, htabs, List.flatMap_append, List.flatMap_cons,
    Table.lastIn?_append, Table.lastIn?_append, lastIn?_strings htab h]
  cases Table.lastIn? key (behind.flatMap context.strings) <;> rfl

end TabContext

/-! ## The table of a run -/

namespace Run

variable {run : Run} {item : ViewItem}

theorem exists_path_of_ok (hok : (run.compileTabs item).1 = .ok ()) (hraws : item.rawTabs ≠ []) :
    ∃ path, RegistryPath.customTabs item.singleCode = .ok path := by
  cases hpath : RegistryPath.customTabs item.singleCode with
  | error failure =>
    rw [compileTabs_of_no_path run hpath, if_neg hraws] at hok
    cases hok
  | ok path => exact ⟨path, rfl⟩

theorem storedTabs_compileTabs (hok : (run.compileTabs item).1 = .ok ())
    (hraws : item.rawTabs ≠ []) :
    (run.compileTabs item).2.2.storedTabs item.singleCode =
      .ok ((run.tabContext item.singleCode).tabs item.rawTabs) := by
  obtain ⟨path, hpath⟩ := exists_path_of_ok hok hraws
  obtain ⟨store, hcompiled, -, hget⟩ := exists_compileTabs_of_path run hpath
  rw [if_neg hraws] at hget
  have hread : (run.withTabStore store).registry.getAs CustomTab.listOfJson? path = _ :=
    Registry.getAs_of_get? hget rfl (TabContext.listOfJson?_tabsJson ..)
  rw [hcompiled, storedTabs, hpath]
  dsimp only
  rw [hread]
  rfl

theorem language_compileTabs (hok : (run.compileTabs item).1 = .ok ()) (hraws : item.rawTabs ≠ []) :
    (run.compileTabs item).2.2.language =
      run.language.setAll ((run.tabContext item.singleCode).tabStrings item.rawTabs) := by
  obtain ⟨path, hpath⟩ := exists_path_of_ok hok hraws
  obtain ⟨store, hcompiled, hlanguage, -⟩ := exists_compileTabs_of_path run hpath
  rw [hcompiled]
  exact hlanguage

/-- Each string of a stored tab is in the table, with its own text or that of the last tab behind
it that has a string with the same key. -/
theorem get?_language_compileTabs (run : Run) (item : ViewItem)
    (hok : (run.compileTabs item).1 = .ok ()) (hraws : item.rawTabs ≠ []) :
    let after := (run.compileTabs item).2.2
    let context := run.tabContext item.singleCode
    ∃ tabs, after.storedTabs item.singleCode = .ok tabs ∧ tabs ≠ [] ∧
      ∀ front tab behind, tabs = front ++ tab :: behind →
        ∀ role key text, context.string? tab role = some (key, text) →
          after.language.get? .both key =
              some ((Table.lastIn? key (behind.flatMap context.strings)).getD text) ∧
            ∀ other ∈ tabs, ∀ otherRole otherKey otherText,
              context.string? other otherRole = some (otherKey, otherText) →
                (otherKey = key ↔ other.code ++ otherRole.ending = tab.code ++ role.ending) := by
  intro after context
  refine ⟨context.tabs item.rawTabs, storedTabs_compileTabs hok hraws, ?_, ?_⟩
  · simpa [TabContext.tabs] using hraws
  · intro front tab behind htabs role key text hstring
    have htab : tab ∈ context.tabs item.rawTabs := by simp [htabs]
    refine ⟨?_, fun other hother _ _ _ => TabContext.key_eq_key_iff htab hother hstring⟩
    change (run.compileTabs item).2.2.language.get? .both key = _
    rw [language_compileTabs hok hraws]
    exact TabContext.get?_setAll_tabStrings run.language htabs hstring

/-- Two spellings of one name, of which the first is guarded, in a view with a blank at its end. -/
def twinItem : ViewItem :=
  { singleCode := "look "
    customTabs := some (.array
      [.object [("name".toList, .string "Extra Info"), ("permission".toList, .nat 1)],
       .object [("name".toList, .string "extra_info")]]) }

def twinRun : Run := start { langPrefix := "COM_X" }

def twinContext : TabContext := twinRun.tabContext twinItem.singleCode

def firstTwin : CustomTab := (twinContext.compileTab ⟨some "Extra Info".toList, [], true⟩).tab

def secondTwin : CustomTab := (twinContext.compileTab ⟨some "extra_info".toList, [], false⟩).tab

theorem tabs_twinItem : twinContext.tabs twinItem.rawTabs = [firstTwin, secondTwin] := by
  have hraws : twinItem.rawTabs =
      [⟨some "Extra Info".toList, [], true⟩, ⟨some "extra_info".toList, [], false⟩] := by
    decide +kernel
  rw [hraws]
  rfl

/-- The second tab sets the label of the first again, and leaves its title alone. -/
theorem get?_language_compileTabs_twinItem :
    (twinRun.compileTabs twinItem).1 = .ok () ∧ twinItem.rawTabs ≠ [] ∧
      let after := (twinRun.compileTabs twinItem).2.2
      after.language.get? .both "COM_X_LOOK_EXTRA_INFO" = some "extra_info" ∧
        after.language.get? .both "COM_X_LOOK_EXTRA_INFO_TAB_PERMISSION" =
          some "look  View Extra Info Tab" := by
  have hok : (twinRun.compileTabs twinItem).1 = .ok () := rfl
  have hraws : twinItem.rawTabs ≠ [] := by decide +kernel
  obtain ⟨tabs, hstored, -, hall⟩ := get?_language_compileTabs twinRun twinItem hok hraws
  rw [storedTabs_compileTabs hok hraws] at hstored
  obtain rfl := Except.ok.inj hstored
  have hfirst := hall [] firstTwin [secondTwin] tabs_twinItem
  obtain ⟨hlabel, -⟩ := hfirst .label "COM_X_LOOK_EXTRA_INFO" "Extra Info" (by decide +kernel)
  obtain ⟨htitle, -⟩ := hfirst .title "COM_X_LOOK_EXTRA_INFO_TAB_PERMISSION"
    "look  View Extra Info Tab" (by decide +kernel)
  refine ⟨hok, hraws, hlabel.trans ?_, htitle.trans ?_⟩
  · decide +kernel
  · decide +kernel

/-- A label is lost to another spelling of it, and a description is without the blank at its end. -/
theorem not_language_agrees_twinItem :
    let after := (twinRun.compileTabs twinItem).2.2
    (firstTwin.name = "Extra Info".toList ∧
        after.language.get? .both firstTwin.lang = some "extra_info") ∧
      (twinContext.permissionDescription firstTwin.name =
          "Allow the users in this group to view Extra Info Tab of look ".toList ∧
        after.language.get? .both "COM_X_LOOK_EXTRA_INFO_TAB_PERMISSION_DESC" =
          some "Allow the users in this group to view Extra Info Tab of look") ∧
      ¬ ∀ (run : Run) (item : ViewItem), (run.compileTabs item).1 = .ok () → item.rawTabs ≠ [] →
        let after := (run.compileTabs item).2.2
        let context := run.tabContext item.singleCode
        ∃ tabs, after.storedTabs item.singleCode = .ok tabs ∧ ∀ tab ∈ tabs,
          after.language.get? .both tab.lang = some (trim tab.name) ∧
            ∀ p ∈ tab.permission,
              after.language.get? .both p.lang = some p.langTitle ∧
                after.language.get? .both p.langDesc =
                  some (context.permissionDescription tab.name) := by
  have hlabel : (twinRun.compileTabs twinItem).2.2.language.get? .both firstTwin.lang =
      some "extra_info" := by decide +kernel
  refine ⟨⟨by decide +kernel, hlabel⟩, ⟨by decide +kernel, by decide +kernel⟩, fun h => ?_⟩
  have hok : (twinRun.compileTabs twinItem).1 = .ok () := rfl
  have hraws : twinItem.rawTabs ≠ [] := by decide +kernel
  obtain ⟨tabs, hstored, hall⟩ := h twinRun twinItem hok hraws
  rw [storedTabs_compileTabs hok hraws] at hstored
  obtain rfl := Except.ok.inj hstored
  have hmem : firstTwin ∈ twinContext.tabs twinItem.rawTabs := by
    rw [tabs_twinItem]
    exact List.mem_cons_self
  have hclaim := (hall firstTwin hmem).1
  rw [hlabel] at hclaim
  exact absurd hclaim (by decide +kernel)

end Run

end ViewBuilder
