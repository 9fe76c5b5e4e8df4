import ViewBuilder.Proofs.Resolver.Reach
import ViewBuilder.Proofs.Run.Operation

/-!
# The templates of a view

Templates are stored for each view, layouts once for all views, and what is there already is not
looked into again. A view has all templates that its own searches lead to. It may miss those that
only come behind a layout that another view stored.
-/

namespace ViewBuilder

namespace Search

variable {config : Config} {source : AliasSource} {view : Text}

/-! ## One search -/

/-- Something is stored for a reference of a view, or the reference is unknown. -/
def Settled (config : Config) (source : AliasSource) (view : Text) (registry : Registry)
    (reference : Reference) : Prop :=
  (ofSource config source view).Present registry reference ∨
    reference.fragment? source view = none

/-- All that the fragment of a reference refers to is settled. -/
def Closed (config : Config) (source : AliasSource) (view : Text) (registry : Registry)
    (reference : Reference) : Prop :=
  ∀ fragment, reference.fragment? source view = some fragment →
    ∀ other ∈ fragment.references, Settled config source view registry other

/-- What a view's search does to a registry: it takes nothing away, and what it adds, for the view
or for all views, is closed. -/
structure Grown (config : Config) (source : AliasSource) (view : Text)
    (before after : Registry) : Prop where
  kept : ∀ {other reference}, (ofSource config source other).Present before reference →
    (ofSource config source other).Present after reference
  added : ∀ {other reference}, (ofSource config source other).Present after reference →
    (ofSource config source other).Present before reference ∨
      ((reference.kind = .template → other = view) ∧ Closed config source view after reference)

theorem Settled.mono {before after : Registry} {reference : Reference}
    (h : Settled config source view before reference)
    (kept : ∀ {reference}, (ofSource config source view).Present before reference →
      (ofSource config source view).Present after reference) :
    Settled config source view after reference := by
  rcases h with hpresent | hunknown
  · exact .inl (kept hpresent)
  · exact .inr hunknown

theorem Closed.mono {before after : Registry} {reference : Reference}
    (h : Closed config source view before reference)
    (kept : ∀ {reference}, (ofSource config source view).Present before reference →
      (ofSource config source view).Present after reference) :
    Closed config source view after reference :=
  fun fragment hfragment other hother => (h fragment hfragment other hother).mono kept

theorem Grown.refl (registry : Registry) : Grown config source view registry registry where
  kept := id
  added := .inl

theorem Grown.trans {before between after : Registry} (h : Grown config source view before between)
    (hnext : Grown config source view between after) :
    Grown config source view before after where
  kept hpresent := hnext.kept (h.kept hpresent)
  added hpresent := by
    rcases hnext.added hpresent with hbetween | hnew
    · rcases h.added hbetween with hbefore | ⟨hview, hclosed⟩
      · exact .inl hbefore
      · exact .inr ⟨hview, hclosed.mono hnext.kept⟩
    · exact .inr hnew

theorem grown_of_reaching {start registry : Registry} {top done : List Reference}
    (h : Reaching config source view start top done [] [] registry) :
    Grown config source view start registry ∧
      ∀ reference ∈ top, Settled config source view registry reference := by
  have hsettled : ∀ reference, Referred source view top (· ∈ done) reference →
      Settled config source view registry reference := by
    intro reference hreferred
    rcases h.covered reference hreferred with hstart | hunknown | hdone | hpending
    · exact .inl (h.present_iff.2 (.inl hstart))
    · exact .inr hunknown
    · exact .inl (h.present_iff.2 (.inr hdone))
    · exact absurd hpending not_pending_nil
  refine ⟨⟨fun hpresent => h.present_iff_of_view.2 (.inl hpresent), fun hpresent => ?_⟩,
    fun reference hmem => hsettled reference (.inl hmem)⟩
  rcases h.present_iff_of_view.1 hpresent with hstart | ⟨hdone, hview⟩
  · exact .inl hstart
  · exact .inr ⟨hview, fun fragment hfragment other hother =>
      hsettled other (.inr ⟨_, fragment, hdone, hfragment, hother⟩)⟩

end Search

namespace Run

open Search

/-! ## One view -/

/-- The texts that are scanned when a view is compiled: its stored tabs and its markup. -/
def scanned (run : Run) (item : ViewItem) : List Text :=
  let named := { run with placeholders := run.placeholders.setViewNames item run.config }
  match named.compileTabs item with
  | (.error _, _, _) => []
  | (.ok (), item, run) =>
    match run.storedTabs item.singleCode with
    | .error _ => []
    | .ok tabs => run.blocks item tabs

variable {source : AliasSource}

theorem grown_resolve {run : Run} {view content : Text} {found result : Bool}
    (h : (run.resolve (AliasResolver.ofSource source) view content found {}).outcome = .ok result) :
    Grown run.config source view run.registry
        (run.resolve (AliasResolver.ofSource source) view content found {}).run.registry ∧
      ∀ reference ∈ (References.scan content).toList, Settled run.config source view
        (run.resolve (AliasResolver.ofSource source) view content found {}).run.registry
        reference := by
  unfold resolve at h ⊢
  rcases hsearch : (run.search (AliasResolver.ofSource source) view).resolve content {}
    ⟨run.registry, found, []⟩ with ⟨failure | _, after⟩
  · rw [hsearch] at h
    cases h
  · obtain ⟨⟨done, hreaching⟩, -⟩ := reaching_resolve hsearch
    exact grown_of_reaching hreaching

theorem grown_resolveAll {run : Run} {view : Text} {found result : Bool} {blocks : List Text}
    (h : (run.resolveAll (AliasResolver.ofSource source) view found blocks).outcome = .ok result) :
    Grown run.config source view run.registry
        (run.resolveAll (AliasResolver.ofSource source) view found blocks).run.registry ∧
      ∀ block ∈ blocks, ∀ reference ∈ (References.scan block).toList,
        Settled run.config source view
          (run.resolveAll (AliasResolver.ofSource source) view found blocks).run.registry
          reference := by
  induction blocks generalizing run found with
  | nil => exact ⟨.refl _, nofun⟩
  | cons block rest ih =>
    rw [resolveAll] at h ⊢
    split at h
    · rename_i hfirst
      rw [hfirst] at h
      cases h
    · rename_i hfirst
      obtain ⟨hgrown, htop⟩ := grown_resolve hfirst
      obtain ⟨hrest, hblocks⟩ := ih h
      refine ⟨hgrown.trans hrest, fun other hother reference hmem => ?_⟩
      rcases List.mem_cons.1 hother with rfl | hother
      · exact (htop reference hmem).mono hrest.kept
      · exact hblocks other hother reference hmem

theorem grown_compileTabs {run after : Run} {item taken : ViewItem} (source : AliasSource) (view : Text)
    (h : run.compileTabs item = (.ok (), taken, after)) :
    after.config = run.config ∧ taken.singleCode = item.singleCode ∧
      Grown run.config source view run.registry after.registry := by
  unfold compileTabs at h
  dsimp only at h
  split at h
  · cases h
  · rename_i store hstore
    cases h
    have hsame : ∀ {other reference}, (ofSource run.config source other).Present store.registry
        reference ↔ (ofSource run.config source other).Present run.registry reference := by
      intro other reference
      refine present_congr fun path hpath => ?_
      rcases TabStore.compile_cases hstore with ⟨-, rfl⟩ | ⟨-, tabs, htabs, rfl⟩
      · rfl
      · exact Registry.get?_set_of_diverges _ _ (RegistryPath.customTabs_diverges hpath htabs)
    exact ⟨rfl, rfl, fun hpresent => hsame.2 hpresent, fun hpresent => .inl (hsame.1 hpresent)⟩

/-- What compiling a view does to a run, unless it fails. -/
theorem grown_compileView {run : Run} {item : ViewItem} {summary : ViewSummary}
    (h : (run.compileView (AliasResolver.ofSource source) item).outcome = .ok summary) :
    (run.compileView (AliasResolver.ofSource source) item).run.config = run.config ∧
    Grown run.config source item.singleCode run.registry
        (run.compileView (AliasResolver.ofSource source) item).run.registry ∧
      ∀ block ∈ run.scanned item, ∀ reference ∈ (References.scan block).toList,
        Settled run.config source item.singleCode
          (run.compileView (AliasResolver.ofSource source) item).run.registry reference := by
  unfold compileView at h ⊢
  unfold scanned
  dsimp only at h ⊢
  generalize hcompiled : compileTabs
    { run with placeholders := run.placeholders.setViewNames item run.config } item = result at h ⊢
  obtain ⟨outcome, taken, compiled⟩ := result
  cases outcome with
  | error failure => cases h
  | ok =>
    obtain ⟨hconfig, hview, htabs⟩ := grown_compileTabs source item.singleCode hcompiled
    dsimp only at h hconfig ⊢
    rw [hview]
    generalize compiled.storedTabs item.singleCode = stored at h ⊢
    cases stored with
    | error failure => cases h
    | ok tabs =>
      dsimp only at h ⊢
      cases hresolved : (compiled.resolveAll (AliasResolver.ofSource source) item.singleCode false
        (compiled.blocks taken tabs)).outcome with
      | error failure =>
        rw [hresolved] at h
        cases h
      | ok found =>
        obtain ⟨hgrown, hblocks⟩ := grown_resolveAll hresolved
        rw [hconfig] at hgrown hblocks
        exact ⟨(config_resolveAll ..).trans hconfig, htabs.trans hgrown, hblocks⟩

/-! ## Several views -/

/-- One view that was compiled: the run before, and the item. -/
structure Compilation where
  before : Run
  item : ViewItem

def Compilation.after (compilation : Compilation) (source : AliasSource) : Run :=
  (compilation.before.compileView (AliasResolver.ofSource source) compilation.item).run

/-- Views were compiled one after the other in a fresh run, none with a failure. The last one comes
first in the list. -/
inductive History (config : Config) (source : AliasSource) : List Compilation → Run → Prop where
  | start : History config source [] (start config)
  | compile {done : List Compilation} {run : Run} {item : ViewItem} {summary : ViewSummary} :
      History config source done run →
      (run.compileView (AliasResolver.ofSource source) item).outcome = .ok summary →
      History config source (⟨run, item⟩ :: done)
        (run.compileView (AliasResolver.ofSource source) item).run

/-- A layout was stored when another view was compiled. -/
def StoredElsewhere (config : Config) (source : AliasSource) (done : List Compilation)
    (view name : Text) : Prop :=
  ∃ compilation ∈ done, compilation.item.singleCode ≠ view ∧
    ¬ (ofSource config source view).Present compilation.before.registry ⟨.layout, name⟩ ∧
    (ofSource config source view).Present (compilation.after source).registry ⟨.layout, name⟩

/-- What the registry holds after some views were compiled. -/
structure Ready (config : Config) (source : AliasSource) (done : List Compilation)
    (registry : Registry) : Prop where
  templates : ∀ view name, (ofSource config source view).Present registry ⟨.template, name⟩ →
    Closed config source view registry ⟨.template, name⟩
  layouts : ∀ view name, (ofSource config source view).Present registry ⟨.layout, name⟩ →
    Closed config source view registry ⟨.layout, name⟩ ∨
      StoredElsewhere config source done view name
  blocks : ∀ compilation ∈ done, ∀ block ∈ compilation.before.scanned compilation.item,
    ∀ reference ∈ (References.scan block).toList,
      Settled config source compilation.item.singleCode registry reference

variable {config : Config}

theorem StoredElsewhere.cons {done : List Compilation} {view name : Text}
    (h : StoredElsewhere config source done view name) (compilation : Compilation) :
    StoredElsewhere config source (compilation :: done) view name := by
  obtain ⟨earlier, hmem, hstored⟩ := h
  exact ⟨earlier, List.mem_cons_of_mem _ hmem, hstored⟩

theorem ready_start (config : Config) (source : AliasSource) :
    Ready config source [] .empty where
  templates _ _ := by simp [Present]
  layouts _ _ := by simp [Present]
  blocks _ h := absurd h List.not_mem_nil

theorem Ready.compile {done : List Compilation} (compilation : Compilation)
    (h : Ready config source done compilation.before.registry)
    (hgrown : Grown config source compilation.item.singleCode compilation.before.registry
      (compilation.after source).registry)
    (hblocks : ∀ block ∈ compilation.before.scanned compilation.item,
      ∀ reference ∈ (References.scan block).toList,
        Settled config source compilation.item.singleCode (compilation.after source).registry
          reference) :
    Ready config source (compilation :: done) (compilation.after source).registry := by
  constructor
  case templates =>
    intro view name hpresent
    rcases hgrown.added hpresent with hbefore | ⟨hview, hclosed⟩
    · exact (h.templates view name hbefore).mono hgrown.kept
    · rw [hview rfl]
      exact hclosed
  case layouts =>
    intro view name hpresent
    by_cases hbefore : (ofSource config source view).Present compilation.before.registry
      ⟨.layout, name⟩
    · rcases h.layouts view name hbefore with hclosed | helsewhere
      · exact .inl (hclosed.mono hgrown.kept)
      · exact .inr (helsewhere.cons _)
    · by_cases hview : compilation.item.singleCode = view
      · rw [← hview] at hpresent hbefore ⊢
        exact .inl ((hgrown.added hpresent).resolve_left hbefore).2
      · exact .inr ⟨compilation, List.mem_cons_self, hview, hbefore, hpresent⟩
  case blocks =>
    intro earlier hmem block hblock reference hreference
    rcases List.mem_cons.1 hmem with rfl | hmem
    · exact hblocks block hblock reference hreference
    · exact (h.blocks earlier hmem block hblock reference hreference).mono hgrown.kept

theorem History.ready {done : List Compilation} {run : Run} (h : History config source done run) :
    run.config = config ∧ Ready config source done run.registry := by
  induction h with
  | start => exact ⟨rfl, ready_start config source⟩
  | @compile done run item summary _ hcompiled ih =>
    obtain ⟨rfl, hready⟩ := ih
    obtain ⟨hconfig, hgrown, hblocks⟩ := grown_compileView hcompiled
    exact ⟨hconfig, Ready.compile ⟨run, item⟩ hready hgrown hblocks⟩

/-! ## Chains of references -/

/-- The fragment of one reference, as a view gets it, refers to another. -/
def Calls (source : AliasSource) (view : Text) (parent reference : Reference) : Prop :=
  ∃ fragment, parent.fragment? source view = some fragment ∧ reference ∈ fragment.references

/-- References that lead from a text of a view from one fragment to the next, all of them known. -/
structure Chain (source : AliasSource) (view block : Text) (chain : List Reference) : Prop where
  head : ∀ reference ∈ chain.head?, reference ∈ (References.scan block).toList
  linked : List.IsChain (Calls source view) chain
  known : ∀ reference ∈ chain, (reference.fragment? source view).isSome = true

theorem Ready.present_of_linked {done : List Compilation} {registry : Registry} {view : Text}
    (h : Ready config source done registry) {chain : List Reference}
    (hhead : ∀ reference ∈ chain.head?, Settled config source view registry reference)
    (hlinked : List.IsChain (Calls source view) chain)
    (hknown : ∀ reference ∈ chain, (reference.fragment? source view).isSome = true)
    (hown : ∀ name, ⟨.layout, name⟩ ∈ chain.dropLast →
      ¬ StoredElsewhere config source done view name) :
    ∀ reference ∈ chain, (ofSource config source view).Present registry reference := by
  induction chain with
  | nil => exact nofun
  | cons first rest ih =>
    have hfirst : (ofSource config source view).Present registry first := by
      rcases hhead first rfl with hpresent | hunknown
      · exact hpresent
      · have := hknown first List.mem_cons_self
        rw [hunknown] at this
        cases this
    cases rest with
    | nil => simpa using hfirst
    | cons second more =>
      rw [List.isChain_cons_cons] at hlinked
      obtain ⟨⟨fragment, hfragment, hcalled⟩, hmore⟩ := hlinked
      rw [List.dropLast_cons_cons] at hown
      have hclosed : Closed config source view registry first := by
        obtain ⟨kind, name⟩ := first
        cases kind with
        | template => exact h.templates view name hfirst
        | layout =>
          exact (h.layouts view name hfirst).resolve_right (hown name List.mem_cons_self)
      intro reference hmem
      rcases List.mem_cons.1 hmem with rfl | hmem
      · exact hfirst
      · refine ih ?_ hmore ?_ ?_ reference hmem
        · rintro _ ⟨⟩
          exact hclosed fragment hfragment second hcalled
        · exact fun other hother => hknown other (List.mem_cons_of_mem _ hother)
        · exact fun name hname => hown name (List.mem_cons_of_mem _ hname)

/-- Whatever views were compiled, in whatever order: each template on a chain that starts in a text
of a view is stored for that view, unless the chain goes on behind a layout that another view
stored. -/
theorem has_template_of_chain {config : Config} {source : AliasSource} {done : List Compilation}
    {run : Run} (h : History config source done run) {compilation : Compilation}
    (hmem : compilation ∈ done) {block : Text}
    (hblock : block ∈ compilation.before.scanned compilation.item) {chain : List Reference}
    (hchain : Chain source compilation.item.singleCode block chain)
    (hown : ∀ name, ⟨.layout, name⟩ ∈ chain.dropLast →
      ¬ StoredElsewhere config source done compilation.item.singleCode name) :
    ∀ name, ⟨.template, name⟩ ∈ chain → ∃ path,
      RegistryPath.templateData config.buildTarget compilation.item.singleCode name = .ok path ∧
        run.registry.has path = true := by
  obtain ⟨-, hready⟩ := h.ready
  intro name hname
  refine hready.present_of_linked (fun reference hreference => ?_) hchain.linked hchain.known hown
    _ hname
  exact hready.blocks compilation hmem block hblock reference (hchain.head reference hreference)

/-! ## A layout that two views share -/

theorem compileTabs_of_no_tabs (run : Run) {item : ViewItem} (h : item.customTabs = none) :
    run.compileTabs item = (.ok (), item, run) := by
  obtain ⟨code, listCode, single, list, tabs, markup, extra⟩ := item
  subst h
  rfl

/-- How a view is compiled that has no tabs and one text, which no placeholder changes. -/
theorem compileView_of_markup (run : Run) (item : ViewItem) {markup : Text} {steps : Nat}
    {after : Progress} (htabs : item.customTabs = none) (hmarkup : item.markup = [markup])
    (hupdate : ∀ placeholders : Placeholders, placeholders.update markup = markup)
    (hstored : run.storedTabs item.singleCode = .ok [])
    (hwithin : (ofSource run.config source item.singleCode).resolveWithin steps markup {}
      ⟨run.registry, false, []⟩ = some (.ok (), after)) :
    run.scanned item = [markup] ∧
      (run.compileView (AliasResolver.ofSource source) item).outcome =
        .ok ⟨item.singleCode, 0, after.found⟩ ∧
      (run.compileView (AliasResolver.ofSource source) item).run.registry = after.registry := by
  have hnamed : storedTabs { run with
      placeholders := run.placeholders.setViewNames item run.config } item.singleCode = .ok [] :=
    hstored
  have hsearch : search { run with
      placeholders := run.placeholders.setViewNames item run.config } (AliasResolver.ofSource source)
      item.singleCode = ofSource run.config source item.singleCode := rfl
  unfold compileView scanned
  simp only [compileTabs_of_no_tabs _ htabs, hnamed, blocks, hmarkup, hupdate, List.map_nil,
    List.map_cons, List.nil_append, resolveAll, resolve, hsearch,
    resolve_eq_of_resolveWithin hwithin]
  exact ⟨trivial, rfl, rfl⟩

/-- A layout that refers to a template. -/
def sharing : AliasSource :=
  (AliasStore.ofSet
    { templates := [⟨"t", none, ⟨"<t/>", ""⟩⟩]
      layouts := [⟨"l", none, ⟨"$this->loadTemplate('t')", ""⟩⟩] }).find

def sharingConfig : Config := { langPrefix := "COM_X", langTarget := .admin }

def sharingMarkup : Text := "JLayoutHelper::render('l', $x)"

def sharingItem (view : Text) : ViewItem := { singleCode := view, markup := [sharingMarkup] }

/-- The layout, and the template for the view that came first. -/
def sharingRegistry : Registry :=
  ⟨[("builder".toList, .object
    [("layout_data".toList, .object [("admin".toList, .object
        [("l".toList, Fragment.toJson ⟨"$this->loadTemplate('t')", ""⟩)])]),
      ("template_data".toList, .object [("admin".toList, .object [("a".toList, .object
        [("t".toList, Fragment.toJson ⟨"<t/>", ""⟩)])])])])]⟩

theorem update_sharingMarkup (placeholders : Placeholders) :
    placeholders.update sharingMarkup = sharingMarkup := by
  unfold Placeholders.update Placeholders.substitute
  exact if_neg (by decide)

/-- Two views with the same text are compiled. The second search stops at the layout. -/
theorem sharing_history : ∃ between after,
    History sharingConfig sharing
      [⟨between, sharingItem "b"⟩, ⟨start sharingConfig, sharingItem "a"⟩] after ∧
    between.registry = sharingRegistry ∧ after.registry = sharingRegistry ∧
    (start sharingConfig).scanned (sharingItem "a") = [sharingMarkup] ∧
    between.scanned (sharingItem "b") = [sharingMarkup] := by
  have hwithin : (ofSource sharingConfig sharing "a").resolveWithin 2 sharingMarkup {}
      ⟨.empty, false, []⟩ =
        some (.ok (), ⟨sharingRegistry, true, [⟨.layout, "l"⟩, ⟨.template, "t"⟩]⟩) := by cbv
  have hagain : (ofSource sharingConfig sharing "b").resolveWithin 0 sharingMarkup {}
      ⟨sharingRegistry, false, []⟩ = some (.ok (), ⟨sharingRegistry, true, []⟩) := by cbv
  obtain ⟨hscanned, houtcome, hregistry⟩ := compileView_of_markup (start sharingConfig)
    (sharingItem "a") rfl rfl update_sharingMarkup rfl hwithin
  have hfirst := History.compile .start houtcome
  generalize (Run.compileView _ _ (sharingItem "a")).run = between at hregistry hfirst
  change between.registry = sharingRegistry at hregistry
  have hstored : between.storedTabs (sharingItem "b").singleCode = .ok [] := by
    unfold storedTabs
    rw [hregistry]
    rfl
  rw [← hfirst.ready.1, ← hregistry] at hagain
  obtain ⟨hscanned', houtcome', hregistry'⟩ := compileView_of_markup between (sharingItem "b")
    rfl rfl update_sharingMarkup hstored hagain
  exact ⟨between, _, hfirst.compile houtcome', hregistry, hregistry'.trans hregistry, hscanned,
    hscanned'⟩

theorem sharing_chain (view : Text) :
    Chain sharing view sharingMarkup [⟨.layout, "l"⟩, ⟨.template, "t"⟩] where
  head := by
    rintro _ ⟨⟩
    decide +kernel
  linked := by
    refine .cons_cons ⟨_, rfl, ?_⟩ (.singleton _)
    decide +kernel
  known := by
    intro reference hmem
    simp only [List.mem_cons, List.not_mem_nil, or_false] at hmem
    rcases hmem with rfl | rfl
    · rfl
    · rfl

theorem has_template_of_sharing :
    ∃ done run compilation chain, History sharingConfig sharing done run ∧
      compilation ∈ done ∧ sharingMarkup ∈ compilation.before.scanned compilation.item ∧
      Chain sharing compilation.item.singleCode sharingMarkup chain ∧
      (∀ name, ⟨.layout, name⟩ ∈ chain.dropLast →
        ¬ StoredElsewhere sharingConfig sharing done compilation.item.singleCode name) ∧
      ⟨.template, "t"⟩ ∈ chain ∧ ∃ path,
        RegistryPath.templateData .admin compilation.item.singleCode "t" = .ok path ∧
        run.registry.has path = true := by
  obtain ⟨between, after, hhistory, hbetween, -, hscanned, -⟩ := sharing_history
  have hblock : sharingMarkup ∈ (start sharingConfig).scanned (sharingItem "a") := by
    rw [hscanned]
    exact List.mem_cons_self
  have hown : ∀ name, ⟨.layout, name⟩ ∈ [(⟨.layout, "l"⟩ : Reference), ⟨.template, "t"⟩].dropLast →
      ¬ StoredElsewhere sharingConfig sharing
        [⟨between, sharingItem "b"⟩, ⟨start sharingConfig, sharingItem "a"⟩] "a" name := by
    rintro name hname ⟨compilation, hmem, hview, hbefore, -⟩
    rcases List.mem_cons.1 hmem with rfl | hmem
    · -- The layout was there before the second view.
      obtain rfl : name = "l".toList := by simpa using hname
      rw [hbetween] at hbefore
      exact hbefore ⟨_, rfl, rfl⟩
    · obtain rfl := List.mem_singleton.1 hmem
      exact hview rfl
  have hname : ⟨.template, "t"⟩ ∈ [(⟨.layout, "l"⟩ : Reference), ⟨.template, "t"⟩] := by simp
  exact ⟨_, after, ⟨start sharingConfig, sharingItem "a"⟩, _, hhistory, by simp, hblock,
    sharing_chain _, hown, hname,
    has_template_of_chain hhistory (by simp) hblock (sharing_chain _) hown "t" hname⟩

/-- Without the condition on layouts, templates are missed. -/
theorem not_has_template_of_sharing :
    ¬ ∀ (config : Config) (source : AliasSource) (done : List Compilation) (run : Run),
      History config source done run → ∀ compilation ∈ done,
        ∀ block ∈ compilation.before.scanned compilation.item, ∀ chain,
          Chain source compilation.item.singleCode block chain →
            ∀ name, ⟨.template, name⟩ ∈ chain → ∃ path,
              RegistryPath.templateData config.buildTarget compilation.item.singleCode name =
                .ok path ∧ run.registry.has path = true := by
  intro h
  obtain ⟨between, after, hhistory, -, hafter, -, hscanned⟩ := sharing_history
  obtain ⟨path, hpath, hhas⟩ := h _ _ _ _ hhistory _ List.mem_cons_self sharingMarkup
    (by rw [hscanned]; exact List.mem_cons_self) _ (sharing_chain _) "t" (by simp)
  have habsent : after.registry.has path = false := by
    unfold Registry.has Registry.present? Registry.get?
    rw [hafter, RegistryPath.segments_of_ofSegments hpath]
    rfl
  rw [habsent] at hhas
  cases hhas

end Run

end ViewBuilder
