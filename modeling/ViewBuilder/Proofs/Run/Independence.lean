import ViewBuilder.Proofs.Run.Tabs

/-!
# Tabs do not depend on other views

All views of a run share the placeholders, the registry and the language strings. A view that is
compiled sets all names that another one has set before it, and it finds its own tabs as they were,
since each view has a place of its own for them. So its tabs come out the same, whatever views were
compiled before, and also if some of these have failed.
-/

namespace ViewBuilder.Run

variable {run between after : Run} {aliases : AliasResolver} {item other : ViewItem}
  {path : RegistryPath}

/-! ## Runs that are alike for a view -/

/-- In both runs the tabs of an item compile to the same, and the same tabs are stored for it. -/
structure Alike (item : ViewItem) (path : RegistryPath) (run after : Run) : Prop where
  context : after.contextOf item = run.contextOf item
  stored : after.registry.get? path = run.registry.get? path

theorem Alike.refl (item : ViewItem) (path : RegistryPath) (run : Run) :
    Alike item path run run := ⟨rfl, rfl⟩

theorem Alike.trans (h : Alike item path run between) (hnext : Alike item path between after) :
    Alike item path run after :=
  ⟨hnext.context.trans h.context, hnext.stored.trans h.stored⟩

/-- The names that one view sets are gone once another one has set its own. -/
theorem contextOf_compileView (run : Run) (aliases : AliasResolver) (item other : ViewItem) :
    (run.compileView aliases other).run.contextOf item = run.contextOf item := by
  obtain ⟨registry, language, h⟩ := run.run_compileView aliases other
  rw [h]
  unfold contextOf named tabContext
  dsimp only
  rw [Placeholders.setViewNames_setViewNames]

theorem alike_compileView (run : Run) (aliases : AliasResolver)
    (hpath : RegistryPath.customTabs item.singleCode = .ok path)
    (hne : other.singleCode ≠ item.singleCode) :
    Alike item path run (run.compileView aliases other).run where
  context := run.contextOf_compileView aliases item other
  stored := get?_customTabs_compileView_of_ne run aliases hpath hne

theorem alike_performAll (run : Run) {others : List (AliasResolver × ViewItem)}
    (hpath : RegistryPath.customTabs item.singleCode = .ok path)
    (hothers : ∀ other ∈ others, other.2.singleCode ≠ item.singleCode) :
    Alike item path run
      (run.performAll (others.map fun other => ⟨other.1, .compileView other.2⟩)).run := by
  induction others generalizing run with
  | nil => exact .refl item path run
  | cons other rest ih =>
    have hfirst : Alike item path run (run.compileView other.1 other.2).run :=
      alike_compileView run other.1 hpath (hothers other List.mem_cons_self)
    exact hfirst.trans (ih _ fun next hmem => hothers next (List.mem_cons_of_mem _ hmem))

/-! ## What a view's tabs come to -/

/-- The keys of the strings that the tabs of an item write. -/
def tabKeys (run : Run) (item : ViewItem) : List Text :=
  ((run.contextOf item).tabStrings item.rawTabs).map (·.1)

theorem Alike.tabKeys_eq (h : Alike item path run after) :
    after.tabKeys item = run.tabKeys item := by
  rw [tabKeys, h.context]
  rfl

theorem Alike.get?_customTabs_compileView (h : Alike item path run after)
    (hpath : RegistryPath.customTabs item.singleCode = .ok path)
    (aliases direct : AliasResolver) :
    (after.compileView aliases item).run.registry.get? path =
      (run.compileView direct item).run.registry.get? path := by
  obtain ⟨hstored, -⟩ := tabs_compileView run direct hpath
  obtain ⟨hafter, -⟩ := tabs_compileView after aliases hpath
  rw [hstored, hafter, h.context, h.stored]

/-- A key that is written gets a text that does not depend on the strings that were there. -/
theorem Alike.exists_text_compileView (h : Alike item path run after)
    (hpath : RegistryPath.customTabs item.singleCode = .ok path)
    (aliases direct : AliasResolver) {key : Text} (hkey : key ∈ run.tabKeys item) :
    ∃ text, (after.compileView aliases item).run.language.get? .both key = some text ∧
      (run.compileView direct item).run.language.get? .both key = some text := by
  obtain ⟨-, hstrings⟩ := tabs_compileView run direct hpath
  obtain ⟨-, hafter⟩ := tabs_compileView after aliases hpath
  obtain ⟨text, htext⟩ := LanguageTable.get?_setAll_of_mem hkey
  rw [hstrings, hafter, h.context]
  exact ⟨text, htext _, htext _⟩

/-! ## Other views first -/

/-- Whatever other views are compiled before a view, each with or without success, and whoever
answers the lookups: the view's item, its stored tabs, and the strings that its tabs write are the
same as when it is compiled at once. -/
theorem compileView_independent (run : Run) (aliases direct : AliasResolver) (item : ViewItem)
    (others : List (AliasResolver × ViewItem)) (hview : item.singleCode ≠ [])
    (hothers : ∀ other ∈ others, other.2.singleCode ≠ item.singleCode) :
    let before := (run.performAll (others.map fun other => ⟨other.1, .compileView other.2⟩)).run
    let last := before.compileView aliases item
    let alone := run.compileView direct item
    last.item = alone.item ∧
      (∃ path, RegistryPath.customTabs item.singleCode = .ok path ∧
        last.run.registry.get? path = alone.run.registry.get? path) ∧
      before.tabKeys item = run.tabKeys item ∧
      ∀ key ∈ run.tabKeys item, ∃ text, last.run.language.get? .both key = some text ∧
        alone.run.language.get? .both key = some text := by
  intro before last alone
  obtain ⟨path, hpath⟩ := RegistryPath.exists_customTabs_iff.2 hview
  have halike : Alike item path run before := alike_performAll run hpath hothers
  refine ⟨?_, ⟨path, hpath, ?_⟩, halike.tabKeys_eq, fun key hkey => ?_⟩
  · exact (before.item_compileView aliases item).trans (run.item_compileView direct item).symm
  · exact halike.get?_customTabs_compileView hpath aliases direct
  · exact halike.exists_text_compileView hpath aliases direct hkey

/-- A view with a tab for permitted users. The title of the permission says the name of the view. -/
def guardedItem (view : Text) (listName : Option Text) : ViewItem :=
  { singleCode := view
    listName := listName
    customTabs := some (.array [.object [("name".toList, .string "T"),
      ("permission".toList, .bool true)]]) }

def guardedKeys : List Text :=
  ["COM_X_A_T", "COM_X_A_T_TAB_PERMISSION", "COM_X_A_T_TAB_PERMISSION_DESC"]

theorem tabKeys_guardedItem :
    (start { langPrefix := "COM_X" }).tabKeys (guardedItem "a" none) = guardedKeys := by
  decide +kernel

/-- The name that the first view gives is not in the title for the second one. -/
theorem compileView_independent_guardedItem :
    let nobody : AliasResolver := .ofSource fun _ _ _ => none
    let run := start { langPrefix := "COM_X" }
    let before := (run.performAll [⟨nobody, .compileView (guardedItem "b" (some "Bees"))⟩]).run
    let last := before.compileView nobody (guardedItem "a" none)
    let alone := run.compileView nobody (guardedItem "a" none)
    last.item = alone.item ∧
      (∃ path, RegistryPath.customTabs "a" = .ok path ∧
        last.run.registry.get? path = alone.run.registry.get? path) ∧
      before.tabKeys (guardedItem "a" none) = guardedKeys ∧
      last.run.language.get? .both "COM_X_A_T_TAB_PERMISSION" = some "As View T Tab".toList := by
  intro nobody run before last alone
  have hkey : "COM_X_A_T_TAB_PERMISSION".toList ∈ run.tabKeys (guardedItem "a" none) := by
    rw [tabKeys_guardedItem]
    decide
  obtain ⟨hitem, hstored, hkeys, htexts⟩ := compileView_independent run nobody nobody
    (guardedItem "a" none) [(nobody, guardedItem "b" (some "Bees"))] (by decide) (by decide)
  obtain ⟨text, hlast, halone⟩ := htexts _ hkey
  have halone' : alone.run.language.get? .both "COM_X_A_T_TAB_PERMISSION" =
      some "As View T Tab".toList := by
    obtain ⟨path, hpath⟩ := RegistryPath.exists_customTabs_iff.2
      (show (guardedItem "a" none).singleCode ≠ [] by decide)
    obtain ⟨-, hlanguage⟩ := tabs_compileView run nobody hpath
    rw [hlanguage]
    decide +kernel
  exact ⟨hitem, hstored, hkeys.trans tabKeys_guardedItem,
    hlast.trans (halone.symm.trans halone')⟩

end ViewBuilder.Run
