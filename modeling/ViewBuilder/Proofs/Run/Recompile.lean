import ViewBuilder.Proofs.Run.Tabs
import ViewBuilder.Proofs.Run.Templates

/-!
# Compiling a view again

A view that was compiled can be compiled again at once, from its item with or without its raw tabs,
and nothing changes: the names and the strings are there, the tabs that are stored are the same, and
each reference that is found in them is settled.
-/

namespace ViewBuilder

/-! ## Tabs that are stored -/

/-- What was compiled and is still stored compiles to the same again. -/
theorem TabStore.compile_again {store done : TabStore} {context : TabContext} {raws : List RawTab}
    {registry : Registry} {path : RegistryPath} (h : store.compile context raws = .ok done)
    (hpath : RegistryPath.customTabs context.view = .ok path)
    (hkept : registry.get? path = done.registry.get? path) :
    TabStore.compile ⟨registry, done.language⟩ context raws = .ok ⟨registry, done.language⟩ := by
  rcases TabStore.compile_cases h with ⟨rfl, -⟩ | ⟨hraws, place, hplace, rfl⟩
  · rfl
  · obtain rfl : path = place := Except.ok.inj (hpath.symm.trans hplace)
    have hget : registry.get? path = some (context.tabsJson raws) :=
      hkept.trans (Registry.get?_set_self ..)
    rw [TabStore.compile_eq _ hraws hpath]
    dsimp only
    rw [Registry.set_eq_self hget, LanguageTable.setAll_setAll]

/-! ## References with a place -/

namespace Search

variable {config : Config} {source : AliasSource} {view : Text} {registry : Registry}

/-- The reference has a place, and it was either found or is unknown. -/
def Done (config : Config) (source : AliasSource) (view : Text) (registry : Registry)
    (reference : Reference) : Prop :=
  (∃ path, (ofSource config source view).path reference = .ok path) ∧
    Settled config source view registry reference

theorem visitReference_done {reference : Reference} (depth : Nat) {progress : Progress}
    (h : Done config source view progress.registry reference) :
    ∃ after, (ofSource config source view).visitReference depth reference progress =
      (.ok [], after) ∧ after.registry = progress.registry := by
  obtain ⟨⟨path, hpath⟩, hsettled⟩ := h
  have hvisit := visit_visitReference (ofSource config source view) depth reference progress
  generalize (ofSource config source view).visitReference depth reference progress = result
    at hvisit ⊢
  obtain ⟨outcome, after⟩ := result
  cases hvisit with
  | noPath hnone =>
    rw [hpath] at hnone
    cases hnone
  | present _ _ => exact ⟨_, rfl, rfl⟩
  | unknown _ _ _ => exact ⟨_, rfl, rfl⟩
  | stored hstored habsent hknown =>
    rcases hsettled with ⟨place, hplace, hhas⟩ | hunknown
    · obtain rfl := Except.ok.inj (hstored.symm.trans hplace)
      rw [hhas] at habsent
      cases habsent
    · rw [lookup?_ofSource, hunknown] at hknown
      cases hknown

theorem visitAll_done {references : List Reference} (depth : Nat) {progress : Progress}
    (h : ∀ reference ∈ references, Done config source view progress.registry reference) :
    ∃ after, (ofSource config source view).visitAll depth references progress = (.ok [], after) ∧
      after.registry = progress.registry := by
  induction references generalizing progress with
  | nil => exact ⟨progress, rfl, rfl⟩
  | cons reference rest ih =>
    obtain ⟨between, hfirst, hbetween⟩ := visitReference_done depth (h reference List.mem_cons_self)
    have hleft : ∀ other ∈ rest, Done config source view between.registry other := by
      rw [hbetween]
      exact fun other hmem => h other (List.mem_cons_of_mem _ hmem)
    obtain ⟨after, hrest, hafter⟩ := ih hleft
    refine ⟨after, ?_, hafter.trans hbetween⟩
    rw [visitAll, hfirst]
    dsimp only
    rw [hrest]
    rfl

end Search

namespace Run

open Search

variable {run : Run} {source : AliasSource} {view : Text} {blocks : List Text} {item : ViewItem}

/-! ## The flag -/

/-- What is there now was there or is known. -/
theorem counts_of_present_resolveAll {reference : Reference} {found : Bool}
    (h : (ofSource run.config source view).Present
      (run.resolveAll (.ofSource source) view found blocks).run.registry reference) :
    Counts run.config source view run.registry reference := by
  revert h
  refine resolveAll_keeps (Q := fun registry =>
    (ofSource run.config source view).Present registry reference →
      Counts run.config source view run.registry reference) ?_ .inl
  intro past depth visited progress outcome after hbefore hvisit
  change (ofSource run.config source view).Visit depth visited progress outcome after at hvisit
  cases hvisit with
  | noPath _ => exact hbefore
  | present _ _ => exact hbefore
  | unknown _ _ _ => exact hbefore
  | @stored path fragment hpath habsent hknown =>
    rintro ⟨place, hplace, hhas⟩
    by_cases hw : (ofSource run.config source view).Writes visited place
    · obtain ⟨_, hvisited⟩ := hw.exists_pathFor
      obtain ⟨-, rfl, -⟩ := eq_of_pathFor hvisited hplace
      rw [lookup?_ofSource] at hknown
      exact .inr (Option.isSome_of_eq_some hknown)
    · rw [Registry.has_eq_of_get?_eq (get?_store_of_not_writes hpath hplace hw)] at hhas
      exact hbefore ⟨place, hplace, hhas⟩

theorem found_resolve {content : Text} {found result : Bool}
    (h : (run.resolve (.ofSource source) view content found {}).outcome = .ok result) :
    result = true ↔ found = true ∨ ∃ reference ∈ (References.scan content).toList,
      Counts run.config source view run.registry reference := by
  unfold resolve at h
  rcases hsearch : (run.search (.ofSource source) view).resolve content {}
    ⟨run.registry, found, []⟩ with ⟨failure | _, after⟩
  · rw [hsearch] at h
    cases h
  · rw [hsearch] at h
    obtain rfl : after.found = result := Except.ok.inj h
    exact (resolve_stores_reached run.config source view content {} _ after hsearch).2.2.2

/-- A reference that is scanned for is there in the end, if it counts at all. -/
theorem counts_iff_present {found result : Bool} {block : Text} {reference : Reference}
    (h : (run.resolveAll (.ofSource source) view found blocks).outcome = .ok result)
    (hblock : block ∈ blocks) (hmem : reference ∈ (References.scan block).toList) :
    Counts run.config source view run.registry reference ↔
      (ofSource run.config source view).Present
        (run.resolveAll (.ofSource source) view found blocks).run.registry reference := by
  obtain ⟨hgrown, hsettled⟩ := grown_resolveAll h
  constructor
  · rintro (hpresent | hknown)
    · exact hgrown.kept hpresent
    · rcases hsettled block hblock reference hmem with hpresent | hunknown
      · exact hpresent
      · rw [hunknown] at hknown
        cases hknown
  · exact counts_of_present_resolveAll

/-- The flag tells whether any reference is there in the end. -/
theorem found_resolveAll {found result : Bool}
    (h : (run.resolveAll (.ofSource source) view found blocks).outcome = .ok result) :
    result = true ↔ found = true ∨ ∃ block ∈ blocks, ∃ reference ∈ (References.scan block).toList,
      (ofSource run.config source view).Present
        (run.resolveAll (.ofSource source) view found blocks).run.registry reference := by
  induction blocks generalizing run found with
  | nil =>
    obtain rfl : found = result := Except.ok.inj h
    simp
  | cons block rest ih =>
    -- At the first text a reference counts if it is there or known, in the end it is just there.
    have hcounts : ∀ reference ∈ (References.scan block).toList,
        (Counts run.config source view run.registry reference ↔
          (ofSource run.config source view).Present
            (run.resolveAll (.ofSource source) view found (block :: rest)).run.registry
            reference) :=
      fun reference hmem => counts_iff_present h List.mem_cons_self hmem
    rw [resolveAll] at h hcounts ⊢
    split at h
    · rename_i hfirst
      rw [hfirst] at h
      cases h
    · rename_i middle hfirst
      rw [hfirst] at hcounts
      rw [ih h, found_resolve hfirst, or_assoc, List.exists_mem_cons_iff]
      exact or_congr_right (or_congr_left (exists_congr fun reference =>
        and_congr_right (hcounts reference)))

/-! ## Resolving again -/

theorem resolve_done {content : Text} (found : Bool)
    (h : ∀ reference ∈ (References.scan content).toList,
      Done run.config source view run.registry reference) :
    ∃ result, (run.resolve (.ofSource source) view content found {}).outcome = .ok result ∧
      (run.resolve (.ofSource source) view content found {}).run = run := by
  obtain ⟨after, hvisit, hafter⟩ : ∃ after, (run.search (.ofSource source) view).visitAll 0
      (({} : Given).references content).toList ⟨run.registry, found, []⟩ = (.ok [], after) ∧
      after.registry = run.registry := visitAll_done 0 h
  have hsearch : (run.search (.ofSource source) view).resolve content {}
      ⟨run.registry, found, []⟩ = (.ok (), after) := by
    rw [Search.resolve, hvisit]
    exact drain_nil _ after
  unfold resolve
  rw [hsearch]
  refine ⟨after.found, rfl, ?_⟩
  dsimp only
  rw [hafter]

theorem resolveAll_done (found : Bool)
    (h : ∀ block ∈ blocks, ∀ reference ∈ (References.scan block).toList,
      Done run.config source view run.registry reference) :
    ∃ result, (run.resolveAll (.ofSource source) view found blocks).outcome = .ok result ∧
      (run.resolveAll (.ofSource source) view found blocks).run = run := by
  induction blocks generalizing found with
  | nil => exact ⟨found, rfl, rfl⟩
  | cons block rest ih =>
    obtain ⟨middle, hfirst, hrun⟩ := resolve_done found (h block List.mem_cons_self)
    obtain ⟨result, hrest, hsame⟩ := ih middle fun other hmem =>
      h other (List.mem_cons_of_mem _ hmem)
    refine ⟨result, ?_⟩
    rw [resolveAll]
    dsimp only
    rw [hfirst, hrun]
    exact ⟨hrest, hsame⟩

/-- Resolving the same texts again gives the same flag and changes nothing. -/
theorem resolveAll_again {found : Bool} {tabs : RegistryPath}
    (htabs : RegistryPath.customTabs view = .ok tabs)
    (h : (run.resolveAll (.ofSource source) view false blocks).outcome = .ok found) :
    let after := (run.resolveAll (.ofSource source) view false blocks).run
    (after.resolveAll (.ofSource source) view false blocks).outcome = .ok found ∧
      (after.resolveAll (.ofSource source) view false blocks).run = after := by
  intro after
  have hconfig : after.config = run.config := config_resolveAll ..
  have hview : view ≠ [] := RegistryPath.exists_customTabs_iff.1 ⟨tabs, htabs⟩
  obtain ⟨hgrown, hsettled⟩ := grown_resolveAll h
  have hdone : ∀ block ∈ blocks, ∀ reference ∈ (References.scan block).toList,
      Done after.config source view after.registry reference := by
    intro block hblock reference hmem
    rw [hconfig]
    exact ⟨exists_pathFor_iff.2 ⟨References.name_ne_nil hmem, fun _ => hview⟩,
      hsettled block hblock reference hmem⟩
  obtain ⟨again, hagain, hrun⟩ := resolveAll_done false hdone
  refine ⟨?_, hrun⟩
  have hsame := found_resolveAll hagain
  rw [hrun, hconfig, ← found_resolveAll h] at hsame
  rw [hagain, Bool.eq_iff_iff.2 hsame]

/-! ## Compiling again -/

variable {taken again : ViewItem} {ready : Run} {tabs : List CustomTab} {path : RegistryPath}

theorem exists_store_of_compileTabs (h : run.compileTabs item = (.ok (), taken, ready)) :
    ∃ store, run.tabStore.compile (run.tabContext item.singleCode)
        (RawTab.decode item.customTabs) = .ok store ∧
      taken = { item with customTabs := none } ∧ ready = run.withTabStore store := by
  rcases run.compileTabs_cases item with ⟨failure, hcases⟩ | ⟨store, hstore, hcases⟩
  · rw [hcases] at h
    cases h
  · rw [hcases] at h
    cases h
    exact ⟨store, hstore, rfl, rfl⟩

/-- Tabs that are still stored can be compiled again, or there are none to compile. -/
theorem compileTabs_again {registry : Registry}
    (h : run.compileTabs item = (.ok (), taken, ready))
    (hpath : RegistryPath.customTabs item.singleCode = .ok path)
    (hkept : registry.get? path = ready.registry.get? path)
    (hagain : again = item ∨ again = taken) :
    let after := { ready with registry := registry }
    after.compileTabs again = (.ok (), { again with customTabs := none }, after) := by
  intro after
  obtain ⟨store, hstore, rfl, rfl⟩ := exists_store_of_compileTabs h
  have hsame : after.tabStore.compile (after.tabContext again.singleCode)
      (RawTab.decode again.customTabs) = .ok after.tabStore := by
    rcases hagain with rfl | rfl
    · exact TabStore.compile_again hstore hpath hkept
    · rfl
  exact compileTabs_of_compile hsame

theorem exists_customTabs_of_storedTabs (h : run.storedTabs view = .ok tabs) :
    ∃ path, RegistryPath.customTabs view = .ok path := by
  unfold storedTabs at h
  cases hpath : RegistryPath.customTabs view with
  | error failure =>
    rw [hpath] at h
    cases h
  | ok path => exact ⟨path, rfl⟩

theorem storedTabs_congr {other : Run} (hpath : RegistryPath.customTabs view = .ok path)
    (h : run.registry.get? path = other.registry.get? path) :
    run.storedTabs view = other.storedTabs view := by
  unfold storedTabs Registry.getAs Registry.present?
  rw [hpath]
  dsimp only
  rw [h]

theorem exists_prepared {aliases : AliasResolver} {summary : ViewSummary}
    (h : (run.compileView aliases item).outcome = .ok summary) :
    ∃ ready tabs, run.Prepared item ready tabs := by
  rcases run.compileView_cases aliases item with ⟨failure, hfailed⟩ | hprepared
  · rw [hfailed] at h
    cases h
  · exact hprepared

theorem Prepared.exists_found {aliases : AliasResolver} {summary : ViewSummary}
    (hprepared : run.Prepared item ready tabs)
    (h : (run.compileView aliases item).outcome = .ok summary) :
    ∃ found, (ready.resolveAll aliases item.singleCode false (ready.blocks item tabs)).outcome =
      .ok found ∧ summary = ⟨item.singleCode, tabs.length, found⟩ := by
  rw [hprepared.compileView_eq] at h
  dsimp only at h
  generalize (ready.resolveAll aliases item.singleCode false (ready.blocks item tabs)).outcome =
    outcome at h ⊢
  cases outcome with
  | error failure => cases h
  | ok found => exact ⟨found, rfl, (Except.ok.inj h).symm⟩

theorem prepared_again {registry : Registry} (h : run.Prepared item ready tabs)
    (hpath : RegistryPath.customTabs item.singleCode = .ok path)
    (hkept : registry.get? path = ready.registry.get? path)
    (hagain : again = item ∨ again = { item with customTabs := none }) :
    let after := { ready with registry := registry }
    after.Prepared again after tabs := by
  intro after
  obtain ⟨store, -, -, hready⟩ := exists_store_of_compileTabs h.compiled
  have hnamed : after.named again = after := by
    have hnames : after.placeholders.setViewNames item after.config = after.placeholders := by
      rw [show after = { ready with registry := registry } from rfl, hready]
      exact Placeholders.setViewNames_setViewNames run.placeholders item item run.config
    rcases hagain with rfl | rfl
    · exact congrArg (fun names => { after with placeholders := names }) hnames
    · exact congrArg (fun names => { after with placeholders := names }) hnames
  constructor
  · rw [hnamed]
    exact compileTabs_again h.compiled hpath hkept hagain
  · have hview : again.singleCode = item.singleCode := by
      rcases hagain with rfl | rfl
      · rfl
      · rfl
    rw [hview, ← h.stored]
    exact storedTabs_congr hpath hkept

/-- Compiling a view a second time, from its item as it was or as it is left, gives the same summary
and leaves the run as it is. -/
theorem compileView_again (run : Run) (source : AliasSource) (item again : ViewItem)
    (summary : ViewSummary)
    (h : (run.compileView (.ofSource source) item).outcome = .ok summary)
    (hagain : again = item ∨ again = (run.compileView (.ofSource source) item).item) :
    let first := run.compileView (.ofSource source) item
    let second := first.run.compileView (.ofSource source) again
    first.item = { item with customTabs := none } ∧ second.outcome = .ok summary ∧
      second.run = first.run := by
  obtain ⟨ready, tabs, hprepared⟩ := exists_prepared h
  obtain ⟨found, hfound, rfl⟩ := hprepared.exists_found h
  obtain ⟨path, hpath⟩ := exists_customTabs_of_storedTabs hprepared.stored
  rw [hprepared.compileView_eq] at hagain ⊢
  dsimp only at hagain ⊢
  obtain ⟨hsame, hunchanged⟩ := resolveAll_again hpath hfound
  have hkept : (ready.resolveAll (.ofSource source) item.singleCode false
      (ready.blocks item tabs)).run.registry.get? path = ready.registry.get? path :=
    get?_customTabs_resolveAll hpath
  have hleft := run_resolveAll ready (.ofSource source) item.singleCode false
    (ready.blocks item tabs)
  have hprepared' := prepared_again hprepared hpath hkept hagain
  rw [← hleft] at hprepared'
  generalize (ready.resolveAll (.ofSource source) item.singleCode false
    (ready.blocks item tabs)).run = left at hsame hunchanged hleft hprepared' ⊢
  -- The second time, all that is read is as it was.
  have hread : again.singleCode = item.singleCode ∧
      left.blocks again tabs = ready.blocks item tabs := by
    rw [hleft]
    rcases hagain with rfl | rfl
    · exact ⟨rfl, rfl⟩
    · exact ⟨rfl, rfl⟩
  rw [hprepared'.compileView_eq, hread.1, hread.2]
  dsimp only
  rw [hsame, hunchanged]
  exact ⟨rfl, rfl, rfl⟩

/-- A view with a tab that refers to a layout, and so to a template behind it. -/
def tabItem : ViewItem :=
  { singleCode := "a"
    customTabs := some (.array [.object [("name".toList, .string "T"),
      ("html".toList, .string sharingMarkup)]]) }

/-- The run once the tab is stored. -/
def tabReady : Run := (((start sharingConfig).named tabItem).compileTabs tabItem).2.2

def tabCompiled : CustomTab :=
  ((((start sharingConfig).named tabItem).tabContext "a").compileTab
    ⟨some "T".toList, sharingMarkup, false⟩).tab

theorem prepared_tabItem : (start sharingConfig).Prepared tabItem tabReady [tabCompiled] where
  compiled := by rfl
  stored := by rfl

theorem outcome_tabItem :
    ((start sharingConfig).compileView (.ofSource sharing) tabItem).outcome =
      .ok ⟨"a", 1, true⟩ := by
  have hwithin : ((ofSource sharingConfig sharing "a").resolveWithin 2 tabCompiled.html {}
      ⟨tabReady.registry, false, []⟩).map (fun result => (result.1.isOk, result.2.found)) =
        some (true, true) := by
    decide +kernel
  obtain ⟨⟨_ | _, after⟩, hresult, hend⟩ := Option.map_eq_some_iff.1 hwithin
  · cases hend
  · have hfound : after.found = true := congrArg Prod.snd hend
    have hsearch : (tabReady.search (.ofSource sharing) "a").resolve tabCompiled.html {}
        ⟨tabReady.registry, false, []⟩ = (.ok (), after) := resolve_eq_of_resolveWithin hresult
    have houtcome : (tabReady.resolveAll (.ofSource sharing) "a" false [tabCompiled.html]).outcome =
        .ok true := by
      simp only [resolveAll, resolve, hsearch, ← hfound]
      rfl
    rw [prepared_tabItem.compileView_eq]
    exact congrArg (Except.map fun found => ViewSummary.mk "a" 1 found) houtcome

theorem compileView_again_tabItem :
    let first := (start sharingConfig).compileView (.ofSource sharing) tabItem
    let second := first.run.compileView (.ofSource sharing) tabItem
    first.outcome = .ok ⟨"a", 1, true⟩ ∧ second.outcome = .ok ⟨"a", 1, true⟩ ∧
      second.run = first.run := by
  obtain ⟨-, hagain⟩ := compileView_again (start sharingConfig) sharing tabItem _ _ outcome_tabItem
    (.inl rfl)
  exact ⟨outcome_tabItem, hagain⟩

end Run

end ViewBuilder
