import ViewBuilder.Proofs.Run.Operation
import ViewBuilder.Proofs.Table

/-!
# The tabs of a view in a run

Compiling a view starts with its tabs: they are stored, and their strings are set. What comes after
that, for whatever the tabs and the markup refer to, leaves stored tabs and strings alone.
-/

namespace ViewBuilder

def ViewItem.rawTabs (item : ViewItem) : List RawTab := RawTab.decode item.customTabs

namespace Run

variable {run : Run} {aliases : AliasResolver} {item : ViewItem} {view : Text} {blocks : List Text}
  {path : RegistryPath}

/-! ## What resolving keeps -/

/-- What is kept of the registry at every reference is kept by all searches of a view. -/
theorem resolveAll_keeps {Q : Registry → Prop} {found : Bool}
    (kept : ∀ {past depth reference progress outcome after}, Q progress.registry →
      (run.search (aliases.resume past) view).Visit depth reference progress outcome after →
      Q after.registry)
    (hq : Q run.registry) : Q (run.resolveAll aliases view found blocks).run.registry := by
  induction blocks generalizing run aliases found with
  | nil => exact hq
  | cons block rest ih =>
    have hfirst : Q (run.resolve aliases view block found {}).run.registry := by
      unfold resolve
      rcases hsearch : (run.search aliases view).resolve block {} ⟨run.registry, found, []⟩ with
        ⟨outcome, after⟩
      have hkept : ∀ {depth reference progress outcome after}, Q progress.registry →
          (run.search aliases view).Visit depth reference progress outcome after →
          Q after.registry := @kept []
      exact Search.resolve_keeps (Q := fun progress => Q progress.registry) hkept hq hsearch
    rw [resolveAll]
    split
    · exact hfirst
    · -- The next text is searched with the resolver as this search has left it.
      refine ih ?_ hfirst
      intro past depth reference progress outcome after hbefore hvisit
      rw [AliasResolver.resume_resume] at hvisit
      exact kept hbefore hvisit

theorem get?_customTabs_resolveAll {other : Text} {found : Bool}
    (hpath : RegistryPath.customTabs other = .ok path) :
    (run.resolveAll aliases view found blocks).run.registry.get? path =
      run.registry.get? path := by
  refine resolveAll_keeps (Q := fun registry => registry.get? path = run.registry.get? path) ?_ rfl
  intro past depth reference progress outcome after hsame hvisit
  cases hvisit with
  | noPath _ => exact hsame
  | present _ _ => exact hsame
  | unknown _ _ _ => exact hsame
  | stored hreference _ _ => exact (Search.get?_customTabs_store hreference hpath).trans hsame

/-! ## Compiling the tabs -/

/-- The context in which the tabs of an item are compiled. -/
def contextOf (run : Run) (item : ViewItem) : TabContext :=
  (run.named item).tabContext item.singleCode

/-- The run once the tabs of an item are compiled. -/
def withTabs (run : Run) (item : ViewItem) : Run := ((run.named item).compileTabs item).2.2

theorem compileTabs_of_compile {store : TabStore}
    (h : run.tabStore.compile (run.tabContext item.singleCode) item.rawTabs = .ok store) :
    run.compileTabs item = (.ok (), { item with customTabs := none }, run.withTabStore store) := by
  unfold ViewItem.rawTabs at h
  rw [compileTabs, h]

theorem compileTabs_of_no_raws (run : Run) (h : item.rawTabs = []) :
    run.compileTabs item = (.ok (), { item with customTabs := none }, run) := by
  have hcompile : run.tabStore.compile (run.tabContext item.singleCode) item.rawTabs =
      .ok run.tabStore := by
    rw [h]
    rfl
  exact compileTabs_of_compile hcompile

/-- The tabs of a view without a name have no place. Without tabs that does not matter yet. -/
theorem compileTabs_of_no_path {failure : Failure} (run : Run)
    (h : RegistryPath.customTabs item.singleCode = .error failure) :
    run.compileTabs item = (if item.rawTabs = [] then .ok () else .error failure,
      { item with customTabs := none }, run) := by
  by_cases hraws : item.rawTabs = []
  · rw [if_pos hraws, compileTabs_of_no_raws run hraws]
  · have hcompile : run.tabStore.compile (run.tabContext item.singleCode) item.rawTabs =
        .error failure := run.tabStore.compile_of_no_path hraws h
    unfold ViewItem.rawTabs at hcompile
    rw [if_neg hraws, compileTabs, hcompile]

/-- The tabs of a view with a name always compile. -/
theorem exists_compileTabs_of_path (run : Run)
    (hpath : RegistryPath.customTabs item.singleCode = .ok path) :
    ∃ store, run.compileTabs item = (.ok (), { item with customTabs := none },
        run.withTabStore store) ∧
      store.language = run.language.setAll
        ((run.tabContext item.singleCode).tabStrings item.rawTabs) ∧
      store.registry.get? path =
        if item.rawTabs = [] then run.registry.get? path
        else some ((run.tabContext item.singleCode).tabsJson item.rawTabs) := by
  by_cases hraws : item.rawTabs = []
  · refine ⟨run.tabStore, compileTabs_of_no_raws run hraws, ?_, ?_⟩
    · rw [hraws]
      rfl
    · rw [if_pos hraws]
      rfl
  · have hcompile : run.tabStore.compile (run.tabContext item.singleCode) item.rawTabs = .ok _ :=
      run.tabStore.compile_eq hraws hpath
    refine ⟨_, compileTabs_of_compile hcompile, rfl, ?_⟩
    rw [if_neg hraws]
    exact Registry.get?_set_self ..

/-- The tabs of another view stay as they are. -/
theorem get?_customTabs_compileTabs_of_ne (run : Run)
    (hpath : RegistryPath.customTabs view = .ok path) (hne : item.singleCode ≠ view) :
    (run.compileTabs item).2.2.registry.get? path = run.registry.get? path := by
  rcases run.compileTabs_cases item with ⟨failure, h⟩ | ⟨store, hstore, h⟩
  · rw [h]
  · rw [h]
    rcases TabStore.compile_cases hstore with ⟨-, rfl⟩ | ⟨-, place, hplace, rfl⟩
    · rfl
    · exact Registry.get?_set_of_diverges _ _
        (RegistryPath.customTabs_diverges_of_ne hplace hpath hne)

/-! ## Compiling the view -/

/-- The raw tabs are taken out of the item, whatever happens. -/
theorem item_compileView (run : Run) (aliases : AliasResolver) (item : ViewItem) :
    (run.compileView aliases item).item = { item with customTabs := none } := by
  rcases run.compileView_cases aliases item with ⟨failure, h⟩ | ⟨ready, tabs, hprepared⟩
  · rw [h]
  · rw [hprepared.compileView_eq]

/-- After its tabs, a view changes no stored tabs and no strings. -/
theorem compileView_keeps_tabs (run : Run) (aliases : AliasResolver) (item : ViewItem)
    (hpath : RegistryPath.customTabs view = .ok path) :
    (run.compileView aliases item).run.registry.get? path =
        (run.withTabs item).registry.get? path ∧
      (run.compileView aliases item).run.language = (run.withTabs item).language := by
  unfold withTabs
  rcases run.compileView_cases aliases item with ⟨failure, h⟩ | ⟨ready, tabs, hprepared⟩
  · rw [h]
    exact ⟨rfl, rfl⟩
  · rw [hprepared.compileView_eq, hprepared.compiled]
    dsimp only
    refine ⟨get?_customTabs_resolveAll hpath, ?_⟩
    rw [run_resolveAll]

/-- What is stored for a view and what strings are set when it is compiled. -/
theorem tabs_compileView (run : Run) (aliases : AliasResolver)
    (hpath : RegistryPath.customTabs item.singleCode = .ok path) :
    ((run.compileView aliases item).run.registry.get? path =
        if item.rawTabs = [] then run.registry.get? path
        else some ((run.contextOf item).tabsJson item.rawTabs)) ∧
      (run.compileView aliases item).run.language =
        run.language.setAll ((run.contextOf item).tabStrings item.rawTabs) := by
  obtain ⟨store, hcompiled, hlanguage, hget⟩ := exists_compileTabs_of_path (run.named item) hpath
  have hready : run.withTabs item = (run.named item).withTabStore store := by
    rw [withTabs, hcompiled]
  obtain ⟨hstored, hstrings⟩ := run.compileView_keeps_tabs aliases item hpath
  rw [hstored, hstrings, hready]
  exact ⟨hget, hlanguage⟩

theorem get?_customTabs_compileView_of_ne (run : Run) (aliases : AliasResolver)
    (hpath : RegistryPath.customTabs view = .ok path) (hne : item.singleCode ≠ view) :
    (run.compileView aliases item).run.registry.get? path = run.registry.get? path := by
  obtain ⟨hstored, -⟩ := run.compileView_keeps_tabs aliases item hpath
  rw [hstored]
  exact get?_customTabs_compileTabs_of_ne (run.named item) hpath hne

end Run

end ViewBuilder
