import ViewBuilder.Proofs.Resolver.Visit
import ViewBuilder.Proofs.Tab.Store
import ViewBuilder.Run

/-!
# What is done with a run

A run goes through operations one after the other, and each of them may fail on its way. Whatever
they are, the registry changes by small steps only: the tabs of a view are stored, or something is
asked that is not there, and what comes is stored (`steps_performAll`). What such a step keeps,
every sequence of operations keeps.
-/

namespace ViewBuilder

/-! ## Questions -/

/-- A reference that was looked up for a view, and what came. -/
structure Question where
  view : Text
  reference : Reference
  answer : Option Fragment

namespace AliasResolver

/-- The lookups for a view with the answers to them. -/
def questions (aliases : AliasResolver) (view : Text) : List Reference → List Question
  | [] => []
  | reference :: rest =>
    ⟨view, reference, aliases.after [] reference.kind reference.name view⟩ ::
      (aliases.resume [reference]).questions view rest

theorem resume_resume (aliases : AliasResolver) (past later : List Reference) :
    (aliases.resume past).resume later = aliases.resume (past ++ later) := by
  simp only [resume, List.append_assoc]

theorem questions_append (aliases : AliasResolver) (view : Text) (past later : List Reference) :
    aliases.questions view (past ++ later) =
      aliases.questions view past ++ (aliases.resume past).questions view later := by
  induction past generalizing aliases with
  | nil => rfl
  | cons reference rest ih =>
    rw [List.cons_append, questions, ih, resume_resume, questions]
    rfl

theorem questions_concat (aliases : AliasResolver) (view : Text) (past : List Reference)
    (reference : Reference) :
    aliases.questions view (past ++ [reference]) = aliases.questions view past ++
      [⟨view, reference, aliases.after past reference.kind reference.name view⟩] := by
  have hnow : (aliases.resume past).after [] = aliases.after past :=
    congrArg aliases.after (List.append_nil past)
  rw [questions_append, questions, questions, hnow]

end AliasResolver

/-! ## Operations -/

inductive Operation where
  | compileView (item : ViewItem)
  | compileTabs (item : ViewItem)
  | compileTab (view : Text) (raw : RawTab)
  | resolve (view content : Text) (found : Bool) (given : Search.Given)
  | changePlaceholders (change : Placeholders → Placeholders)
  | changeCustomCode (change : CustomCode → CustomCode)

/-- The run that operations leave, and what they asked. -/
structure Performed where
  run : Run
  asked : List Question

/-- An operation, and who answers its lookups. -/
structure Call where
  aliases : AliasResolver
  operation : Operation

namespace Run

def perform (run : Run) (call : Call) : Performed :=
  match call.operation with
  | .compileView item =>
    let compiled := run.compileView call.aliases item
    ⟨compiled.run, call.aliases.questions item.singleCode compiled.lookups⟩
  | .compileTabs item => ⟨(run.compileTabs item).2.2, []⟩
  | .compileTab view raw => ⟨(run.compileTab view raw).2, []⟩
  | .resolve view content found given =>
    let resolved := run.resolve call.aliases view content found given
    ⟨resolved.run, call.aliases.questions view resolved.lookups⟩
  | .changePlaceholders change => ⟨{ run with placeholders := change run.placeholders }, []⟩
  | .changeCustomCode change => ⟨{ run with customCode := change run.customCode }, []⟩

def performAll (run : Run) : List Call → Performed
  | [] => ⟨run, []⟩
  | call :: rest =>
    let first := run.perform call
    let others := first.run.performAll rest
    { others with asked := first.asked ++ others.asked }

theorem performAll_append (run : Run) (earlier later : List Call) :
    (run.performAll (earlier ++ later)).run =
      ((run.performAll earlier).run.performAll later).run := by
  induction earlier generalizing run with
  | nil => rfl
  | cons call rest ih => exact ih (run.perform call).run

end Run

/-! ## Steps -/

/-- What happens to a registry at one time, and the question that goes with it. -/
inductive Step (config : Config) (registry : Registry) : Option Question → Registry → Prop where
  | tabs {context : TabContext} {raws : List RawTab} {path : RegistryPath} :
      raws ≠ [] → RegistryPath.customTabs context.view = .ok path →
      Step config registry none
        (registry.set path (context.tabsJson raws))
  | unknown {search : Search} {reference : Reference} {path : RegistryPath} :
      search.config = config → search.path reference = .ok path → registry.has path = false →
      Step config registry (some ⟨search.view, reference, none⟩) registry
  | stored {search : Search} {reference : Reference} {path : RegistryPath} {fragment : Fragment} :
      search.config = config → search.path reference = .ok path → registry.has path = false →
      Step config registry (some ⟨search.view, reference, some fragment⟩)
        (search.store registry path reference fragment)

/-- Steps one after the other, with all questions in order. -/
inductive Steps (config : Config) (start : Registry) : List Question → Registry → Prop where
  | start : Steps config start [] start
  | step {asked : List Question} {registry after : Registry} {question : Option Question} :
      Steps config start asked registry → Step config registry question after →
      Steps config start (asked ++ question.toList) after

namespace Steps

variable {config : Config} {start registry after : Registry} {asked more : List Question}

theorem trans (h : Steps config start asked registry) (hmore : Steps config registry more after) :
    Steps config start (asked ++ more) after := by
  induction hmore with
  | start =>
    rw [List.append_nil]
    exact h
  | step _ hstep ih =>
    rw [← List.append_assoc]
    exact ih.step hstep

theorem tabs {context : TabContext} {raws : List RawTab} {store done : TabStore}
    (h : store.compile context raws = .ok done) :
    Steps config store.registry [] done.registry := by
  rcases TabStore.compile_cases h with ⟨-, rfl⟩ | ⟨hraws, path, hpath, rfl⟩
  · exact .start
  · exact .step .start (.tabs hraws hpath)

/-- A reference that is visited is there, or has no place, or is asked for. -/
theorem visit {search : Search} {depth : Nat} {reference : Reference} {progress next : Progress}
    {outcome : Except Failure (List Block)}
    (h : Steps search.config start (search.aliases.questions search.view progress.lookups)
      progress.registry)
    (hvisit : search.Visit depth reference progress outcome next) :
    Steps search.config start (search.aliases.questions search.view next.lookups)
      next.registry := by
  cases hvisit with
  | noPath _ => exact h
  | present _ _ => exact h
  | unknown hpath habsent hlookup =>
    rw [AliasResolver.questions_concat]
    have hanswer : search.aliases.after progress.lookups reference.kind reference.name
        search.view = none := hlookup
    rw [hanswer]
    exact h.step (.unknown rfl hpath habsent)
  | stored hpath habsent hlookup =>
    rw [AliasResolver.questions_concat]
    have hanswer : search.aliases.after progress.lookups reference.kind reference.name
        search.view = some _ := hlookup
    rw [hanswer]
    exact h.step (.stored rfl hpath habsent)

end Steps

namespace Run

variable {run ready : Run} {item taken : ViewItem} {tabs : List CustomTab}

/-! ## Compiling a view -/

/-- Tabs are compiled and stored, or nothing happens but that they are taken out. -/
theorem compileTabs_cases (run : Run) (item : ViewItem) :
    (∃ failure, run.compileTabs item = (.error failure, { item with customTabs := none }, run)) ∨
      ∃ store, run.tabStore.compile (run.tabContext item.singleCode)
          (RawTab.decode item.customTabs) = .ok store ∧
        run.compileTabs item =
          (.ok (), { item with customTabs := none }, run.withTabStore store) := by
  unfold compileTabs
  dsimp only
  split
  · exact .inl ⟨_, rfl⟩
  · rename_i store hstore
    exact .inr ⟨store, hstore, rfl⟩

/-- The run once the names of a view are set. -/
def named (run : Run) (item : ViewItem) : Run :=
  { run with placeholders := run.placeholders.setViewNames item run.config }

/-- The tabs of an item compile, and these tabs are then stored for its view. -/
structure Prepared (run : Run) (item : ViewItem) (ready : Run) (tabs : List CustomTab) : Prop where
  compiled : (run.named item).compileTabs item = (.ok (), { item with customTabs := none }, ready)
  stored : ready.storedTabs item.singleCode = .ok tabs

theorem compileView_of_compileTabs {failure : Failure} (aliases : AliasResolver)
    (h : (run.named item).compileTabs item = (.error failure, taken, ready)) :
    run.compileView aliases item = ⟨.error failure, taken, ready, []⟩ := by
  unfold named at h
  unfold compileView
  dsimp only
  rw [h]

theorem compileView_of_storedTabs {failure : Failure} (aliases : AliasResolver)
    (h : (run.named item).compileTabs item = (.ok (), taken, ready))
    (hstored : ready.storedTabs item.singleCode = .error failure) :
    run.compileView aliases item = ⟨.error failure, taken, ready, []⟩ := by
  unfold named at h
  unfold compileView
  dsimp only
  rw [h]
  dsimp only
  rw [hstored]

/-- Compiling a view stops with its tabs, or comes to what they and the markup refer to. -/
theorem compileView_cases (run : Run) (aliases : AliasResolver) (item : ViewItem) :
    (∃ failure, run.compileView aliases item = ⟨.error failure, { item with customTabs := none },
      ((run.named item).compileTabs item).2.2, []⟩) ∨
      ∃ ready tabs, run.Prepared item ready tabs := by
  rcases (run.named item).compileTabs_cases item with ⟨failure, h⟩ | ⟨store, -, h⟩
  · rw [h]
    exact .inl ⟨failure, compileView_of_compileTabs aliases h⟩
  · rw [h]
    cases hstored : ((run.named item).withTabStore store).storedTabs item.singleCode with
    | error failure => exact .inl ⟨failure, compileView_of_storedTabs aliases h hstored⟩
    | ok tabs => exact .inr ⟨_, tabs, h, hstored⟩

theorem Prepared.compileView_eq (h : run.Prepared item ready tabs) (aliases : AliasResolver) :
    let resolved := ready.resolveAll aliases item.singleCode false (ready.blocks item tabs)
    run.compileView aliases item =
      { outcome := resolved.outcome.map fun found => ⟨item.singleCode, tabs.length, found⟩
        item := { item with customTabs := none }
        run := resolved.run
        lookups := resolved.lookups } := by
  intro resolved
  have hcompiled := h.compiled
  unfold named at hcompiled
  unfold compileView
  dsimp only
  rw [hcompiled]
  dsimp only
  rw [h.stored]
  rfl

/-! ## What operations leave alone -/

theorem run_resolveAll (run : Run) (aliases : AliasResolver) (view : Text) (found : Bool)
    (blocks : List Text) :
    (run.resolveAll aliases view found blocks).run =
      { run with registry := (run.resolveAll aliases view found blocks).run.registry } := by
  induction blocks generalizing run aliases found with
  | nil => rfl
  | cons block rest ih =>
    rw [resolveAll]
    split
    · rfl
    · exact ih ..

theorem config_resolveAll (run : Run) (aliases : AliasResolver) (view : Text) (found : Bool)
    (blocks : List Text) : (run.resolveAll aliases view found blocks).run.config = run.config := by
  rw [run_resolveAll]

theorem run_compileTabs (run : Run) (item : ViewItem) :
    ∃ store, (run.compileTabs item).2.2 = run.withTabStore store := by
  rcases run.compileTabs_cases item with ⟨failure, h⟩ | ⟨store, -, h⟩
  · rw [h]
    exact ⟨run.tabStore, rfl⟩
  · rw [h]
    exact ⟨store, rfl⟩

/-- Only the names of the view, the registry and the language strings change. -/
theorem run_compileView (run : Run) (aliases : AliasResolver) (item : ViewItem) :
    ∃ registry language, (run.compileView aliases item).run =
      { run.named item with registry, language } := by
  obtain ⟨store, htabs⟩ := (run.named item).run_compileTabs item
  rcases run.compileView_cases aliases item with ⟨failure, h⟩ | ⟨ready, tabs, hprepared⟩
  · rw [h]
    exact ⟨store.registry, store.language, htabs⟩
  · rw [hprepared.compiled] at htabs
    obtain rfl : ready = (run.named item).withTabStore store := htabs
    rw [hprepared.compileView_eq]
    dsimp only
    rw [run_resolveAll]
    exact ⟨_, store.language, rfl⟩

theorem config_perform (run : Run) (call : Call) : (run.perform call).run.config = run.config := by
  obtain ⟨aliases, operation⟩ := call
  cases operation with
  | compileView item =>
    obtain ⟨registry, language, h⟩ := run.run_compileView aliases item
    exact (congrArg config h).trans rfl
  | compileTabs item =>
    obtain ⟨store, h⟩ := run.run_compileTabs item
    exact (congrArg config h).trans rfl
  | compileTab | resolve | changePlaceholders | changeCustomCode => rfl

theorem config_performAll (run : Run) (calls : List Call) :
    (run.performAll calls).run.config = run.config := by
  induction calls generalizing run with
  | nil => rfl
  | cons call rest ih => exact (ih _).trans (run.config_perform call)

/-! ## The steps of an operation -/

theorem steps_resolve (run : Run) (aliases : AliasResolver) (view content : Text) (found : Bool)
    (given : Search.Given) :
    Steps run.config run.registry
      (aliases.questions view (run.resolve aliases view content found given).lookups)
      (run.resolve aliases view content found given).run.registry := by
  unfold resolve
  rcases hsearch : (run.search aliases view).resolve content given ⟨run.registry, found, []⟩ with
    ⟨outcome, after⟩
  have hstart : Steps run.config run.registry (aliases.questions view []) run.registry := .start
  exact Search.resolve_keeps (fun hsteps hvisit => Steps.visit hsteps hvisit) hstart hsearch

theorem steps_resolveAll (run : Run) (aliases : AliasResolver) (view : Text) (found : Bool)
    (blocks : List Text) :
    Steps run.config run.registry
      (aliases.questions view (run.resolveAll aliases view found blocks).lookups)
      (run.resolveAll aliases view found blocks).run.registry := by
  induction blocks generalizing run aliases found with
  | nil => exact .start
  | cons block rest ih =>
    have hfirst := run.steps_resolve aliases view block found {}
    rw [resolveAll]
    split
    · exact hfirst
    · rename_i result _
      have hrest := ih (run.resolve aliases view block found {}).run
        (aliases.resume (run.resolve aliases view block found {}).lookups) result
      rw [AliasResolver.questions_append]
      exact hfirst.trans hrest

theorem steps_compileTabs (run : Run) (item : ViewItem) :
    Steps run.config run.registry [] (run.compileTabs item).2.2.registry := by
  rcases run.compileTabs_cases item with ⟨failure, h⟩ | ⟨store, hstore, h⟩
  · rw [h]
    exact .start
  · rw [h]
    exact Steps.tabs hstore

theorem steps_compileView (run : Run) (aliases : AliasResolver) (item : ViewItem) :
    Steps run.config run.registry
      (aliases.questions item.singleCode (run.compileView aliases item).lookups)
      (run.compileView aliases item).run.registry := by
  have htabs := (run.named item).steps_compileTabs item
  rcases run.compileView_cases aliases item with ⟨failure, h⟩ | ⟨ready, tabs, hprepared⟩
  · rw [h]
    exact htabs
  · obtain ⟨store, hready⟩ := (run.named item).run_compileTabs item
    rw [hprepared.compiled] at htabs hready
    have hconfig : ready.config = run.config := (congrArg config hready).trans rfl
    have hblocks := ready.steps_resolveAll aliases item.singleCode false (ready.blocks item tabs)
    rw [hconfig] at hblocks
    rw [hprepared.compileView_eq]
    exact htabs.trans hblocks

/-- An operation changes the registry by steps that ask what it asks. -/
theorem steps_perform (run : Run) (call : Call) :
    Steps run.config run.registry (run.perform call).asked (run.perform call).run.registry := by
  obtain ⟨aliases, operation⟩ := call
  cases operation with
  | compileView item => exact run.steps_compileView aliases item
  | compileTabs item => exact run.steps_compileTabs item
  | compileTab view raw => exact .start
  | resolve view content found given => exact run.steps_resolve aliases view content found given
  | changePlaceholders change => exact .start
  | changeCustomCode change => exact .start

theorem steps_performAll (run : Run) (calls : List Call) :
    Steps run.config run.registry (run.performAll calls).asked
      (run.performAll calls).run.registry := by
  induction calls generalizing run with
  | nil => exact .start
  | cons call rest ih =>
    have hrest := ih (run.perform call).run
    rw [run.config_perform call] at hrest
    exact (run.steps_perform call).trans hrest

end Run

end ViewBuilder
