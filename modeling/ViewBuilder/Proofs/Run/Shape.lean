import ViewBuilder.Proofs.Registry.Shape
import ViewBuilder.Proofs.Run.Operation

/-!
# The shape of the registry

Whatever is done with a run, its registry is empty or has one root with at most three branches, for
tabs, templates and layouts, and each of them holds what belongs there. An operation that fails on
its way leaves the registry in this shape too.
-/

namespace ViewBuilder

open Json

/-! ## Branches -/

/-- The tabs of a view: an array, not empty, of what reads as tabs of this view. -/
def IsTabs (view : Text) (value : Json) : Prop :=
  ∃ tabs, CustomTab.listOfJson? value = some tabs ∧ tabs ≠ [] ∧ ∀ tab ∈ tabs, tab.view = view

def IsAnswer (answer : Option Fragment) (value : Json) : Prop :=
  ∃ fragment, answer = some fragment ∧ value = fragment.toJson

def IsTemplates (config : Config) (source : AliasSource) (value : Json) : Prop :=
  ∃ views, value = .object [(config.buildTarget.name, views)] ∧
    views.Holds fun view names => names.Holds fun name => IsAnswer (source .template name view)

/-- The same for the side that is built and, when both sides are meant, for the other. -/
def onSides (config : Config) (layouts : Json) : Json :=
  .object ((config.buildTarget.name, layouts) ::
    if config.langTarget = .both then [(config.buildTarget.other.name, layouts)] else [])

/-- Some layouts, each known for some view. -/
def IsLayouts (config : Config) (source : AliasSource) (value : Json) : Prop :=
  ∃ layouts, layouts ≠ .object [] ∧
    (layouts.Holds fun name value => ∃ view, IsAnswer (source .layout name view) value) ∧
    value = onSides config layouts

def IsBranch (config : Config) (source : AliasSource) (key : Text) (value : Json) : Prop :=
  (key = "custom_tabs".toList ∧ value.Holds IsTabs) ∨
    (key = "template_data".toList ∧ IsTemplates config source value) ∨
    (key = "layout_data".toList ∧ IsLayouts config source value)

def Registry.Shaped (config : Config) (source : AliasSource) (registry : Registry) : Prop :=
  registry.root = [] ∨
    ∃ branches, registry.root = [(RegistryPath.root, branches)] ∧
      branches.Holds (IsBranch config source)

variable {config : Config} {source : AliasSource} {view name : Text} {value : Json}
variable {fragment : Fragment}

theorem isBranch_customTabs_iff :
    IsBranch config source "custom_tabs".toList value ↔ value.Holds IsTabs := by
  have htemplates : "custom_tabs".toList ≠ "template_data".toList := by decide
  have hlayouts : "custom_tabs".toList ≠ "layout_data".toList := by decide
  simp only [IsBranch, htemplates, hlayouts, true_and, false_and, or_false]

theorem isBranch_templateData_iff :
    IsBranch config source "template_data".toList value ↔ IsTemplates config source value := by
  have htabs : "template_data".toList ≠ "custom_tabs".toList := by decide
  have hlayouts : "template_data".toList ≠ "layout_data".toList := by decide
  simp only [IsBranch, htabs, hlayouts, true_and, false_and, or_false, false_or]

theorem isBranch_layoutData_iff :
    IsBranch config source "layout_data".toList value ↔ IsLayouts config source value := by
  have htabs : "layout_data".toList ≠ "custom_tabs".toList := by decide
  have htemplates : "layout_data".toList ≠ "template_data".toList := by decide
  simp only [IsBranch, htabs, htemplates, true_and, false_and, false_or]

/-! ## Changes of a branch -/

theorem isTabs_tabsJson (context : TabContext) {raws : List RawTab} (hraws : raws ≠ []) :
    IsTabs context.view (context.tabsJson raws) := by
  refine ⟨_, context.listOfJson?_tabsJson raws, ?_, ?_⟩
  · intro hnil
    exact hraws (List.map_eq_nil_iff.1 (List.map_eq_nil_iff.1 hnil))
  · rw [List.map_map, List.forall_mem_map]
    exact fun raw _ => rfl

theorem holds_putAt_tabs {new : Json} (hnew : IsTabs view new)
    (h : value = .null ∨ value.Holds IsTabs) : (putAt new [view] value).Holds IsTabs :=
  Holds.putAt h fun _ _ => hnew

theorem IsTemplates.putAt (hanswer : source .template name view = some fragment)
    (h : value = .null ∨ IsTemplates config source value) :
    IsTemplates config source
      (putAt fragment.toJson [config.buildTarget.name, view, name] value) := by
  have hput : ∀ views, (views = .null ∨ views.Holds fun view names =>
      names.Holds fun name => IsAnswer (source .template name view)) →
      (Json.putAt fragment.toJson [view, name] views).Holds fun view names =>
        names.Holds fun name => IsAnswer (source .template name view) :=
    fun _ hviews => Holds.putAt hviews fun _ hnames =>
      Holds.putAt hnames fun _ _ => ⟨fragment, hanswer, rfl⟩
  rcases h with rfl | ⟨views, rfl, hviews⟩
  · exact ⟨_, rfl, hput .null (.inl rfl)⟩
  · refine ⟨_, ?_, hput views (.inr hviews)⟩
    rw [Json.putAt]
    simp [Entries.get?, Entries.put]

/-- Puts a layout on the side that is built and, when both sides are meant, on the other. -/
def putSides (config : Config) (name : Text) (new value : Json) : Json :=
  let built := putAt new [config.buildTarget.name, name] value
  match config.mirrorTarget with
  | none => built
  | some target => putAt new [target.name, name] built

theorem putSides_null (config : Config) (name : Text) (new : Json) :
    putSides config name new .null = onSides config (putAt new [name] .null) := by
  have hother := config.buildTarget.name_ne_other_name
  unfold putSides onSides Config.mirrorTarget
  by_cases hboth : config.langTarget = .both
  · simp [hboth, putAt, Entries.get?, Entries.put, hother]
  · simp [hboth, putAt, Entries.get?, Entries.put]

theorem putSides_onSides (config : Config) (name : Text) (new layouts : Json) :
    putSides config name new (onSides config layouts) =
      onSides config (putAt new [name] layouts) := by
  have hother := config.buildTarget.name_ne_other_name
  unfold putSides onSides Config.mirrorTarget
  by_cases hboth : config.langTarget = .both
  · simp [hboth, putAt, Entries.get?, Entries.put, hother]
  · simp [hboth, putAt, Entries.get?, Entries.put]

theorem IsLayouts.putSides (hanswer : source .layout name view = some fragment)
    (h : value = .null ∨ IsLayouts config source value) :
    IsLayouts config source (putSides config name fragment.toJson value) := by
  obtain ⟨layouts, hlayouts, hsides⟩ : ∃ layouts, (layouts = .null ∨ layouts.Holds fun name value =>
      ∃ view, IsAnswer (source .layout name view) value) ∧
      ViewBuilder.putSides config name fragment.toJson value =
        onSides config (putAt fragment.toJson [name] layouts) := by
    rcases h with rfl | ⟨layouts, -, hlayouts, rfl⟩
    · exact ⟨.null, .inl rfl, putSides_null ..⟩
    · exact ⟨layouts, .inr hlayouts, putSides_onSides ..⟩
  refine ⟨_, fun hnil => ?_, Holds.putAt hlayouts fun _ _ => ⟨view, fragment, hanswer, rfl⟩, hsides⟩
  exact Entries.put_ne_nil (Json.object.inj hnil)

/-! ## Changes of the registry -/

variable {registry after : Registry}

theorem Registry.Shaped.updateAt {branch : Text} {change : Json → Json}
    (h : registry.Shaped config source)
    (hafter : after.toJson = Json.updateAt change [RegistryPath.root, branch] registry.toJson)
    (hchange : ∀ value, value = .null ∨ IsBranch config source branch value →
      IsBranch config source branch (change value)) :
    after.Shaped config source := by
  have hroot : after.root = Entries.put RegistryPath.root (Json.updateAt change [branch]
      ((Entries.get? RegistryPath.root registry.root).getD .null)) registry.root :=
    Json.object.inj hafter
  rcases h with hnil | ⟨branches, hbranches, hholds⟩
  · rw [hnil] at hroot
    exact .inr ⟨_, hroot, Holds.updateAt (.inl rfl) hchange⟩
  · rw [hbranches] at hroot
    refine .inr ⟨Json.updateAt change [branch] branches, ?_, Holds.updateAt (.inr hholds) hchange⟩
    rw [hroot]
    simp [Entries.get?, Entries.put]

theorem shaped_empty (config : Config) (source : AliasSource) :
    Registry.empty.Shaped config source := .inl rfl

theorem Registry.Shaped.tabs {context : TabContext} {raws : List RawTab} {path : RegistryPath}
    (h : registry.Shaped config source) (hraws : raws ≠ [])
    (hpath : RegistryPath.customTabs context.view = .ok path) :
    (registry.set path (context.tabsJson raws)).Shaped config source := by
  apply h.updateAt
  · have hsegments : path.segments = [RegistryPath.root, "custom_tabs"] ++ [context.view] :=
      RegistryPath.segments_of_ofSegments hpath
    rw [toJson_set, hsegments, putAt_append]
  · intro value hvalue
    rw [isBranch_customTabs_iff] at hvalue ⊢
    exact holds_putAt_tabs (isTabs_tabsJson context hraws) hvalue

theorem Registry.Shaped.template {search : Search} {path : RegistryPath}
    (h : registry.Shaped search.config source)
    (hpath : search.path ⟨.template, name⟩ = .ok path)
    (hanswer : source .template name search.view = some fragment) :
    (search.store registry path ⟨.template, name⟩ fragment).Shaped search.config source := by
  apply h.updateAt
  · have hsegments : path.segments = [RegistryPath.root, "template_data"] ++
        [search.config.buildTarget.name, search.view, name] := Search.segments_of_pathFor hpath
    rw [Search.store_eq_set rfl, toJson_set, hsegments, putAt_append]
  · intro value hvalue
    rw [isBranch_templateData_iff] at hvalue ⊢
    exact IsTemplates.putAt hanswer hvalue

theorem toJson_store_layout {search : Search} {path : RegistryPath}
    (hpath : search.path ⟨.layout, name⟩ = .ok path) :
    (search.store registry path ⟨.layout, name⟩ fragment).toJson =
      Json.updateAt (putSides search.config name fragment.toJson)
        [RegistryPath.root, "layout_data"] registry.toJson := by
  have hmirror : search.mirror? ⟨.layout, name⟩ = search.config.mirrorTarget := rfl
  have hsegments : path.segments = [RegistryPath.root, "layout_data"] ++
      [search.config.buildTarget.name, name] := Search.segments_of_pathFor hpath
  unfold putSides
  cases htarget : search.config.mirrorTarget with
  | none =>
    rw [htarget] at hmirror
    rw [Search.store_eq_set hmirror, Registry.toJson_set, hsegments, putAt_append]
  | some target =>
    rw [htarget] at hmirror
    obtain ⟨other, hother⟩ := Search.exists_mirror_path target hpath
    have hotherSegments : other.segments = [RegistryPath.root, "layout_data"] ++
        [target.name, name] := Search.segments_of_pathFor hother
    rw [Search.store_eq_set_set hmirror hother, Registry.toJson_set, Registry.toJson_set,
      hsegments, hotherSegments, putAt_append, putAt_append, updateAt_updateAt]

theorem Registry.Shaped.layout {search : Search} {path : RegistryPath}
    (h : registry.Shaped search.config source)
    (hpath : search.path ⟨.layout, name⟩ = .ok path)
    (hanswer : source .layout name search.view = some fragment) :
    (search.store registry path ⟨.layout, name⟩ fragment).Shaped search.config source := by
  apply h.updateAt (toJson_store_layout hpath)
  intro value hvalue
  rw [isBranch_layoutData_iff] at hvalue ⊢
  exact IsLayouts.putSides hanswer hvalue

/-! ## Steps -/

/-- The answer is what a source says. -/
def Question.From (source : AliasSource) (question : Question) : Prop :=
  question.answer = source question.reference.kind question.reference.name question.view

theorem Step.shaped {question : Option Question} (h : Step config registry question after)
    (hfrom : ∀ asked ∈ question, asked.From source) (hshaped : registry.Shaped config source) :
    after.Shaped config source := by
  cases h with
  | tabs hraws hpath => exact hshaped.tabs hraws hpath
  | unknown _ _ _ => exact hshaped
  | @stored search reference path fragment hconfig hpath _ =>
    subst hconfig
    have hanswer := (hfrom _ rfl).symm
    obtain ⟨kind, name⟩ := reference
    cases kind with
    | template => exact hshaped.template hpath hanswer
    | layout => exact hshaped.layout hpath hanswer

theorem Steps.shaped {start : Registry} {asked : List Question}
    (h : Steps config start asked registry) (hfrom : ∀ question ∈ asked, question.From source)
    (hshaped : start.Shaped config source) : registry.Shaped config source := by
  induction h with
  | start => exact hshaped
  | step _ hstep ih =>
    refine hstep.shaped ?_ (ih fun question hmem => hfrom question (List.mem_append_left _ hmem))
    exact fun question hmem =>
      hfrom question (List.mem_append_right _ (Option.mem_toList.2 hmem))

/-! ## Runs -/

theorem AliasResolver.from_of_mem_questions {references : List Reference} {question : Question}
    (h : question ∈ (ofSource source).questions view references) : question.From source := by
  induction references with
  | nil => cases h
  | cons reference rest ih =>
    rw [questions, resume_ofSource] at h
    rcases List.mem_cons.1 h with rfl | hrest
    · rfl
    · exact ih hrest

namespace Run

theorem from_of_mem_perform {run : Run} {operation : Operation} {question : Question}
    (h : question ∈ (run.perform ⟨.ofSource source, operation⟩).asked) :
    question.From source := by
  cases operation with
  | compileView | resolve => exact AliasResolver.from_of_mem_questions h
  | compileTabs | compileTab | changePlaceholders | changeCustomCode => cases h

theorem from_of_mem_performAll {run : Run} {operations : List Operation} {question : Question}
    (h : question ∈ (run.performAll (operations.map (Call.mk (.ofSource source)))).asked) :
    question.From source := by
  induction operations generalizing run with
  | nil => cases h
  | cons operation rest ih =>
    rcases List.mem_append.1 h with hfirst | hrest
    · exact from_of_mem_perform hfirst
    · exact ih hrest

/-- Whatever is done with a fresh run, if one source answers all lookups, the registry has its
shape, and all templates and layouts in it are answers of this source. -/
theorem shaped_performAll (config : Config) (source : AliasSource) (operations : List Operation) :
    ((start config).performAll
      (operations.map (Call.mk (.ofSource source)))).run.registry.Shaped config source :=
  ((start config).steps_performAll _).shaped (fun _ => from_of_mem_performAll)
    (shaped_empty config source)

end Run

end ViewBuilder
