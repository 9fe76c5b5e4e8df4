import ViewBuilder.Run
import ViewBuilder.RunFile
import ViewBuilder.Styled

/-!
# Builds

A build compiles all views of a run file in one run, in order, and stops at the first failure. Its
result is shown to people as a line for each view and a summary, and to programs as JSON.
-/

namespace ViewBuilder

structure Build where
  run : Run
  /-- The summaries of the views so far, in order. -/
  summaries : List ViewSummary

namespace Build

/-! ## Building -/

/-- A run with the placeholders and the snippets of a file, and the custom code of earlier
outputs. -/
def prepare (config : Config) (file : RunFile) (priors : List Text) : Run :=
  let run := Run.start config
  { run with
    placeholders := file.placeholders.entries.foldl (fun p entry => p.set entry.1 entry.2)
      run.placeholders
    customCode := priors.foldl (fun code prior => (code.capture prior).1)
      (file.customCode.entries.foldl (fun code entry => code.register entry.1 entry.2)
        run.customCode) }

def compileViews (aliases : AliasSource) (build : Build) :
    List ViewItem → Except Failure Build
  | [] => .ok build
  | item :: rest =>
    let compiled := build.run.compileView aliases item
    match compiled.outcome with
    | .error failure => .error failure
    | .ok summary => compileViews aliases ⟨compiled.run, build.summaries ++ [summary]⟩ rest

def ofRunFile (config : Config) (file : RunFile) (priors : List Text) : Except Failure Build :=
  compileViews (AliasStore.ofSet file.aliases).find ⟨prepare config file priors, []⟩ file.views

/-! ## JSON -/

def toJson (build : Build) : Json :=
  .object [("views".toList, .array (build.summaries.map ViewSummary.toJson)),
    ("registry".toList, build.run.registry.toJson),
    ("language".toList, build.run.language.toJson),
    ("checksum".toList, .string build.run.registry.checksum)]

/-! ## Lines for people -/

def summaryLine (summary : ViewSummary) : StyledLine :=
  let references : Span :=
    if summary.found then ⟨.green, "references resolved"⟩ else ⟨.dimmed, "no references"⟩
  [⟨.green, "✓"⟩, .plain " ", ⟨.bold, summary.view⟩,
    .plain (" (" ++ Text.ofNat summary.tabs ++ " tab(s), "), references, .plain ")"]

def lines (build : Build) : List StyledLine :=
  let target := build.run.config.buildTarget
  let strings := (build.run.language.stringsFor target).size
  build.summaries.map summaryLine ++
    [[],
     [⟨.cyan, "→"⟩,
      .plain (" " ++ Text.ofNat strings ++ " language string(s) for " ++ target.name)],
     [⟨.cyan, "→"⟩, .plain " registry ", ⟨.dimmed, build.run.registry.checksum⟩]]

end Build

/-! ## References -/

namespace References

def toJson (references : References) : Json :=
  .object [("templates".toList, .texts references.templates),
    ("layouts".toList, .texts references.layouts)]

def lines (references : References) : List StyledLine :=
  if references.isEmpty then [[⟨.dimmed, "No template or layout references found"⟩]]
  else
    references.templates.map (fun name => [⟨.cyan, "template"⟩, .plain (" " ++ name)]) ++
      references.layouts.map (fun name => [⟨.yellow, "layout"⟩, .plain (" " ++ name)])

end References

end ViewBuilder
