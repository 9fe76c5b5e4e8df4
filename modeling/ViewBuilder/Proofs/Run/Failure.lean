import ViewBuilder.Proofs.Run.Once
import ViewBuilder.Proofs.Run.Tabs

/-!
# How compiling a view fails

A view without a name has no place for its tabs, and nothing happens to the registry and the
strings. A view with a name is stopped by the depth limit only: the names that are scanned for are
not empty, so all references have a place, and what a run has stored for tabs always reads as tabs.
-/

namespace ViewBuilder

namespace Search

variable {search : Search}

/-! ## Searches -/

/-- The names that a search goes on with are scanned for, so none of them is empty. -/
theorem kept_named (search : Search) :
    Kept search fun _ left _ _ => ∀ reference ∈ left, reference.name ≠ [] where
  visit hleft _ other hmem := hleft other (List.mem_cons_of_mem _ hmem)
  descend _ _ hmem := References.name_ne_nil hmem

/-- A search for a view with a name stops early at the depth limit only. -/
theorem depthExceeded_of_resolve {content : Text} {given : Given} {progress after : Progress}
    {failure : Failure} (hview : search.view ≠ [])
    (hnames : ∀ reference ∈ (given.references content).toList, reference.name ≠ [])
    (h : search.resolve content given progress = (.error failure, after)) :
    ∃ path depth, failure = .depthExceeded path depth search.config.maxResolveDepth := by
  obtain ⟨_, reference, _, _, _, hleft, hvisit⟩ := (kept_named search).resolve hnames h
  generalize hout : Except.error failure = outcome at hvisit
  cases hvisit with
  | noPath hnone =>
    obtain ⟨path, hpath⟩ : ∃ path, search.path reference = .ok path :=
      exists_pathFor_iff.2 ⟨hleft reference List.mem_cons_self, fun _ => hview⟩
    rw [hpath] at hnone
    cases hnone
  | present _ _ => cases hout
  | unknown _ _ _ => cases hout
  | stored _ _ _ =>
    obtain ⟨rfl, -⟩ := children_eq_error hout.symm
    exact ⟨_, _, rfl⟩

end Search

/-! ## Stored tabs can be read -/

variable {config : Config} {before registry after : Registry} {asked : List Question}

/-- Whatever is stored for the tabs of a view reads as tabs. -/
def Registry.Readable (registry : Registry) : Prop :=
  ∀ view path value, RegistryPath.customTabs view = .ok path →
    registry.get? path = some value → ∃ tabs, CustomTab.listOfJson? value = some tabs

theorem readable_empty : Registry.empty.Readable := by
  intro view path value _ hget
  rw [Registry.get?_empty] at hget
  cases hget

theorem Step.readable {question : Option Question} (h : Step config registry question after)
    (hreadable : registry.Readable) : after.Readable := by
  intro view path value hpath hget
  cases h with
  | @tabs context raws tabs _ htabs =>
    -- The tabs that are stored are those of this view, or they are elsewhere.
    by_cases hview : context.view = view
    · obtain rfl : tabs = path := by
        rw [hview, hpath] at htabs
        exact (Except.ok.inj htabs).symm
      rw [Registry.get?_set_self] at hget
      obtain rfl := Option.some.inj hget
      exact ⟨_, context.listOfJson?_tabsJson raws⟩
    · rw [Registry.get?_set_of_diverges _ _
        (RegistryPath.customTabs_diverges_of_ne htabs hpath hview)] at hget
      exact hreadable _ _ _ hpath hget
  | unknown _ _ _ => exact hreadable _ _ _ hpath hget
  | stored _ hreference _ =>
    rw [Search.get?_customTabs_store hreference hpath] at hget
    exact hreadable _ _ _ hpath hget

theorem Steps.readable (h : Steps config before asked registry) (hreadable : before.Readable) :
    registry.Readable := by
  induction h with
  | start => exact hreadable
  | step _ hstep ih => exact hstep.readable ih

theorem Registry.Keeps.get?_eq_some (h : registry.Keeps after) {target : BuildTarget}
    {view name : Text} {path : RegistryPath} {value : Json}
    (hpath : RegistryPath.templateData target view name = .ok path ∨
      RegistryPath.layoutData target name = .ok path)
    (hget : registry.get? path = some value) : after.get? path = some value := by
  let search : Search := ⟨{ langPrefix := [] }, .ofSource fun _ _ _ => none, view⟩
  rcases hpath with htemplate | hlayout
  · exact h (show search.pathFor target ⟨.template, name⟩ = .ok path from htemplate) hget
  · exact h (show search.pathFor target ⟨.layout, name⟩ = .ok path from hlayout) hget

namespace Run

variable {run : Run} {aliases : AliasResolver} {item : ViewItem} {view : Text} {path : RegistryPath}
  {failure : Failure}

/-! ## A view without a name -/

/-- Without a place for its tabs a view only sets its names. -/
theorem compileView_of_no_path (run : Run) (aliases : AliasResolver)
    (h : RegistryPath.customTabs item.singleCode = .error failure) :
    run.compileView aliases item =
      ⟨.error failure, { item with customTabs := none }, run.named item, []⟩ := by
  have hcompiled := compileTabs_of_no_path (run.named item) h
  by_cases hraws : item.rawTabs = []
  · rw [if_pos hraws] at hcompiled
    have hstored : (run.named item).storedTabs item.singleCode = .error failure := by
      rw [storedTabs, h]
    exact compileView_of_storedTabs aliases hcompiled hstored
  · rw [if_neg hraws] at hcompiled
    exact compileView_of_compileTabs aliases hcompiled

/-! ## A view with a name -/

theorem exists_storedTabs (hreadable : run.registry.Readable)
    (hpath : RegistryPath.customTabs view = .ok path) : ∃ tabs, run.storedTabs view = .ok tabs := by
  unfold storedTabs Registry.getAs
  rw [hpath]
  dsimp only
  cases hpresent : run.registry.present? path with
  | none => exact ⟨_, rfl⟩
  | some value =>
    obtain ⟨hget, -⟩ := Option.filter_eq_some_iff.1 hpresent
    obtain ⟨tabs, htabs⟩ := hreadable _ _ _ hpath hget
    dsimp only
    rw [htabs]
    exact ⟨tabs, rfl⟩

/-- The tabs of a view with a name compile, and they can be read from where they are stored. -/
theorem exists_prepared_of_path (hreadable : run.registry.Readable)
    (hpath : RegistryPath.customTabs item.singleCode = .ok path) :
    ∃ ready tabs, run.Prepared item ready tabs ∧ ready.config = run.config := by
  obtain ⟨store, hcompiled, -, -⟩ := exists_compileTabs_of_path (run.named item) hpath
  have hready : ((run.named item).withTabStore store).registry.Readable := by
    have hsteps := (run.named item).steps_compileTabs item
    rw [hcompiled] at hsteps
    exact hsteps.readable hreadable
  obtain ⟨tabs, htabs⟩ := exists_storedTabs hready hpath
  exact ⟨_, tabs, ⟨hcompiled, htabs⟩, rfl⟩

theorem depthExceeded_of_resolveAll {blocks : List Text} {found : Bool} (hview : view ≠ [])
    (h : (run.resolveAll aliases view found blocks).outcome = .error failure) :
    ∃ path depth, failure = .depthExceeded path depth run.config.maxResolveDepth := by
  induction blocks generalizing run aliases found with
  | nil => cases h
  | cons block rest ih =>
    rw [resolveAll] at h
    split at h
    · unfold resolve at h
      rcases hsearch : (run.search aliases view).resolve block {} ⟨run.registry, found, []⟩ with
        ⟨other | _, after⟩
      · rw [hsearch] at h
        obtain rfl : other = failure := Except.error.inj h
        exact Search.depthExceeded_of_resolve hview (fun _ => References.name_ne_nil) hsearch
      · rw [hsearch] at h
        cases h
    · rename_i middle _
      have hrest : ((run.resolve aliases view block found {}).run.resolveAll
          (aliases.resume (run.resolve aliases view block found {}).lookups) view middle
          rest).outcome = .error failure := h
      have hdepth := ih hrest
      exact hdepth

theorem depthExceeded_of_compileView (hreadable : run.registry.Readable)
    (hview : item.singleCode ≠ [])
    (h : (run.compileView aliases item).outcome = .error failure) :
    ∃ path depth, failure = .depthExceeded path depth run.config.maxResolveDepth := by
  obtain ⟨path, hpath⟩ := RegistryPath.exists_customTabs_iff.2 hview
  obtain ⟨ready, tabs, hprepared, hconfig⟩ := exists_prepared_of_path hreadable hpath
  rw [hprepared.compileView_eq] at h
  dsimp only at h
  cases hresolved : (ready.resolveAll aliases item.singleCode false
    (ready.blocks item tabs)).outcome with
  | ok found =>
    rw [hresolved] at h
    cases h
  | error other =>
    rw [hresolved] at h
    obtain rfl : other = failure := Except.error.inj h
    rw [← hconfig]
    exact depthExceeded_of_resolveAll hview hresolved

/-! ## All ways to fail -/

/-- How compiling a view can fail, whatever was done with the run before and whoever answers. A view
without a name has no place, and nothing is stored then. A view with a name can only get too deep;
what is stored for templates and layouts is kept all the same, and its tabs are stored. The raw tabs
are taken out of the item in any case, and nothing else of it changes. -/
theorem compileView_failures (config : Config) (calls : List Call) (aliases : AliasResolver)
    (item : ViewItem) :
    let run := ((start config).performAll calls).run
    let compiled := run.compileView aliases item
    compiled.item = { item with customTabs := none } ∧
    ((∃ path reason, compiled.outcome = .error (.invalidPath path reason)) ↔
      item.singleCode = []) ∧
    (item.singleCode = [] →
      compiled.run.registry = run.registry ∧ compiled.run.language = run.language) ∧
    (item.singleCode ≠ [] →
      (∀ failure, compiled.outcome = .error failure →
        ∃ path depth, failure = .depthExceeded path depth config.maxResolveDepth) ∧
      (∀ target view name path value,
        (RegistryPath.templateData target view name = .ok path ∨
          RegistryPath.layoutData target name = .ok path) →
        run.registry.get? path = some value → compiled.run.registry.get? path = some value) ∧
      ∃ path, RegistryPath.customTabs item.singleCode = .ok path ∧
        compiled.run.registry.get? path =
          if item.rawTabs = [] then run.registry.get? path
          else some ((run.contextOf item).tabsJson item.rawTabs)) := by
  intro run compiled
  have hsteps : Steps config .empty ((start config).performAll calls).asked run.registry :=
    (start config).steps_performAll calls
  have hreadable : run.registry.Readable := hsteps.readable readable_empty
  have hconfig : run.config = config := config_performAll (start config) calls
  have hdepth : item.singleCode ≠ [] → ∀ failure, compiled.outcome = .error failure →
      ∃ path depth, failure = .depthExceeded path depth config.maxResolveDepth := by
    intro hview failure hfailure
    rw [← hconfig]
    exact depthExceeded_of_compileView hreadable hview hfailure
  refine ⟨run.item_compileView aliases item, ⟨?_, fun hview => ?_⟩, fun hview => ?_,
    fun hview => ?_⟩
  · rintro ⟨path, reason, hinvalid⟩
    by_contra hview
    obtain ⟨_, _, hfailure⟩ := hdepth hview _ hinvalid
    cases hfailure
  · obtain ⟨path, reason, hnone⟩ := RegistryPath.customTabs_eq_error hview
    exact ⟨path, reason, congrArg Compiled.outcome (run.compileView_of_no_path aliases hnone)⟩
  · obtain ⟨path, reason, hnone⟩ := RegistryPath.customTabs_eq_error hview
    have hcompiled : compiled = _ := run.compileView_of_no_path aliases hnone
    rw [hcompiled]
    exact ⟨rfl, rfl⟩
  · obtain ⟨path, hpath⟩ := RegistryPath.exists_customTabs_iff.2 hview
    have heven : Search.Even run.config run.registry := by
      rw [hconfig]
      exact hsteps.even (Search.even_empty config)
    have hkeeps : Registry.Keeps run.registry compiled.run.registry :=
      (run.steps_compileView aliases item).keeps heven
    refine ⟨hdepth hview, ?_, path, hpath, (tabs_compileView run aliases hpath).1⟩
    exact fun target view name path value hplace hget => hkeeps.get?_eq_some hplace hget

/-- No level is left for what a fragment refers to. -/
def shallowConfig : Config := { langPrefix := "COM_X", maxResolveDepth := 0 }

def knowing : AliasSource := fun _ _ _ => some ⟨"x", []⟩

/-- A view with a tab that refers to a template. -/
def callingItem : ViewItem :=
  { singleCode := "a"
    customTabs := some (.array [.object [("name".toList, .string "T"),
      ("html".toList, .string "$this->loadTemplate('t')")]]) }

def callingTab : CustomTab :=
  (((start shallowConfig).contextOf callingItem).compileTab
    ⟨some "T".toList, "$this->loadTemplate('t')", false⟩).tab

def callingReady : Run := (start shallowConfig).withTabs callingItem

theorem prepared_callingItem :
    (start shallowConfig).Prepared callingItem callingReady [callingTab] where
  compiled := by rfl
  stored := by rfl

theorem outcome_callingItem :
    ((start shallowConfig).compileView (.ofSource knowing) callingItem).outcome =
      .error (.depthExceeded "builder.template_data.admin.a.t" 1 0) := by
  have hwithin : ((callingReady.search (.ofSource knowing) "a").resolveWithin 0 callingTab.html {}
      ⟨callingReady.registry, false, []⟩).map (·.1) =
        some (.error (.depthExceeded "builder.template_data.admin.a.t" 1 0)) := by
    decide +kernel
  obtain ⟨⟨outcome, after⟩, hresult, rfl⟩ := Option.map_eq_some_iff.1 hwithin
  have hsearch := Search.resolve_eq_of_resolveWithin hresult
  have houtcome : (callingReady.resolveAll (.ofSource knowing) "a" false
      [callingTab.html]).outcome =
        .error (.depthExceeded "builder.template_data.admin.a.t" 1 0) := by
    simp only [resolveAll, resolve, hsearch]
    rfl
  rw [prepared_callingItem.compileView_eq]
  exact congrArg (Except.map fun found => ViewSummary.mk "a" 1 found) houtcome

/-- The tab is stored although the template in it comes too deep. -/
theorem compileView_failures_callingItem :
    let compiled := (start shallowConfig).compileView (.ofSource knowing) callingItem
    compiled.outcome = .error (.depthExceeded "builder.template_data.admin.a.t" 1 0) ∧
      compiled.item = { callingItem with customTabs := none } ∧
      ∃ path, RegistryPath.customTabs "a" = .ok path ∧
        compiled.run.registry.get? path =
          some (((start shallowConfig).contextOf callingItem).tabsJson callingItem.rawTabs) := by
  intro compiled
  obtain ⟨hitem, -, -, hnamed⟩ := compileView_failures shallowConfig [] (.ofSource knowing)
    callingItem
  obtain ⟨-, -, path, hpath, hget⟩ := hnamed (by decide)
  exact ⟨outcome_callingItem, hitem, path, hpath, hget⟩

end Run

end ViewBuilder
