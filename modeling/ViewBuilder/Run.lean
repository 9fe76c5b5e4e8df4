import ViewBuilder.Resolver
import ViewBuilder.Tab.Compile

/-!
# Runs

A run holds everything that building the views of a component shares: the registry, the language
strings, the placeholders and the custom code. Every operation leaves a run behind, also one that
fails.
-/

namespace ViewBuilder

structure Run where
  config : Config
  registry : Registry
  language : LanguageTable
  placeholders : Placeholders
  customCode : CustomCode

/-- What is known about a view once it is compiled. -/
structure ViewSummary where
  view : Text
  tabs : Nat
  /-- Whether any template or layout was found. -/
  found : Bool
deriving DecidableEq

def ViewSummary.toJson (summary : ViewSummary) : Json :=
  .object [("view".toList, .string summary.view), ("tabs".toList, .nat summary.tabs),
    ("found".toList, .bool summary.found)]

namespace Run

def start (config : Config) : Run := ⟨config, .empty, .empty, .empty, .empty⟩

/-! ## Tabs -/

def tabContext (run : Run) (view : Text) : TabContext :=
  { config := run.config, placeholders := run.placeholders, customCode := run.customCode, view }

def tabStore (run : Run) : TabStore := ⟨run.registry, run.language⟩

def withTabStore (run : Run) (store : TabStore) : Run :=
  { run with registry := store.registry, language := store.language }

/-- Compiles one tab and keeps its strings; the tab itself is not stored. -/
def compileTab (run : Run) (view : Text) (raw : RawTab) : CustomTab × Run :=
  let compiled := (run.tabContext view).compileTab raw
  (compiled.tab, { run with language := run.language.setAll compiled.strings })

/-- Compiles the raw tabs of an item, which are taken out of it in any case. -/
def compileTabs (run : Run) (item : ViewItem) : Except Failure Unit × ViewItem × Run :=
  let taken := { item with customTabs := none }
  let context := run.tabContext item.singleCode
  match run.tabStore.compile context (RawTab.decode item.customTabs) with
  | .error failure => (.error failure, taken, run)
  | .ok store => (.ok (), taken, run.withTabStore store)

/-- The compiled tabs of a view that are stored. -/
def storedTabs (run : Run) (view : Text) : Except Failure (List CustomTab) :=
  match RegistryPath.customTabs view with
  | .error failure => .error failure
  | .ok path => (run.registry.getAs CustomTab.listOfJson? path).map fun tabs => tabs.getD []

/-! ## References -/

/-- The result of resolving references in a run. -/
structure Resolved where
  outcome : Except Failure Bool
  run : Run
  lookups : List Reference

def search (run : Run) (aliases : AliasResolver) (view : Text) : Search :=
  { config := run.config, aliases, view }

/-- Resolves the references of a text. Whether anything has been found so far goes in and out. -/
def resolve (run : Run) (aliases : AliasResolver) (view content : Text) (found : Bool)
    (given : Search.Given) : Resolved :=
  let (outcome, progress) :=
    (run.search aliases view).resolve content given ⟨run.registry, found, []⟩
  { outcome := outcome.map fun _ => progress.found
    run := { run with registry := progress.registry }
    lookups := progress.lookups }

/-- Resolves the references of several texts in order, up to the first failure. -/
def resolveAll (run : Run) (aliases : AliasResolver) (view : Text) (found : Bool) :
    List Text → Resolved
  | [] => ⟨.ok found, run, []⟩
  | block :: rest =>
    let first := run.resolve aliases view block found {}
    match first.outcome with
    | .error _ => first
    | .ok found =>
      let others := first.run.resolveAll (aliases.resume first.lookups) view found rest
      { others with lookups := first.lookups ++ others.lookups }

/-! ## Views -/

/-- What compiling a view leaves behind. -/
structure Compiled where
  outcome : Except Failure ViewSummary
  item : ViewItem
  run : Run
  lookups : List Reference

/-- The texts of a view that may hold references: its tabs and its own markup. -/
def blocks (run : Run) (item : ViewItem) (tabs : List CustomTab) : List Text :=
  tabs.map (·.html) ++ item.markup.map run.placeholders.update

/-- Compiles a view: sets its names, compiles its tabs, and resolves the references in the stored
tabs and in the markup of the item. -/
def compileView (run : Run) (aliases : AliasResolver) (item : ViewItem) : Compiled :=
  let view := item.singleCode
  let named := { run with placeholders := run.placeholders.setViewNames item run.config }
  match named.compileTabs item with
  | (.error failure, item, run) => ⟨.error failure, item, run, []⟩
  | (.ok (), item, run) =>
    match run.storedTabs view with
    | .error failure => ⟨.error failure, item, run, []⟩
    | .ok tabs =>
      let resolved := run.resolveAll aliases view false (run.blocks item tabs)
      { outcome := resolved.outcome.map fun found => ⟨view, tabs.length, found⟩
        item := item
        run := resolved.run
        lookups := resolved.lookups }

end Run

end ViewBuilder
