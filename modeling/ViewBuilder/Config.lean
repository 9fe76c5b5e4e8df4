import ViewBuilder.Json.Record
import ViewBuilder.Target
import ViewBuilder.Text.Blank

/-!
# The settings of a run

Every setting but the one that language keys start with has a default. A config is checked before
a run that reads it from a file; the definitions of the run work with any config.
-/

namespace ViewBuilder

structure Config where
  langPrefix : Text
  buildTarget : BuildTarget := .admin
  langTarget : Scope := .both
  componentCode : Option Text := none
  maxResolveDepth : Nat := 32
deriving DecidableEq

namespace Config

/-- The side that layouts are stored for besides the one that is built. -/
def mirrorTarget (config : Config) : Option BuildTarget :=
  if config.langTarget = .both then some config.buildTarget.other else none

/-! ## Checks -/

def noPrefix : Text := "lang_prefix must not be empty"

def blankInPrefix (langPrefix : Text) : Text :=
  "lang_prefix '" ++ langPrefix ++ "' must not contain whitespace"

def noDepth : Text := "max_resolve_depth must be at least 1"

/-- The config itself if a run can work with it. -/
def validate (config : Config) : Except Failure Config :=
  if Text.allBlank config.langPrefix then .error (.config noPrefix)
  else if config.langPrefix.any Text.isBlank then
    .error (.config (blankInPrefix config.langPrefix))
  else if config.maxResolveDepth = 0 then .error (.config noDepth)
  else .ok config

/-! ## JSON -/

open Json in
/-- The fields as they are written. The last two are not written when they have their default. -/
def fields (config : Config) : List (Text × Json) :=
  ("lang_prefix".toList, .string config.langPrefix) ::
    ("build_target".toList, .string config.buildTarget.name) ::
    ("lang_target".toList, .string config.langTarget.name) ::
    (optionalField "component_code" (config.componentCode.map .string) ++
      optionalField "max_resolve_depth"
        (if config.maxResolveDepth = 32 then none else some (.nat config.maxResolveDepth)))

def toJson (config : Config) : Json := .object config.fields

def fieldNames : List Text :=
  ["lang_prefix", "build_target", "lang_target", "component_code", "max_resolve_depth"]

open Json.Document in
/-- Reads a config without checking it. -/
def ofDocument? (document : Json.Document) : Option Config := do
  let fields ← recordFields? fieldNames document
  let langPrefix ← fields.required? "lang_prefix" text?
  let buildTarget ← fields.withDefault? "build_target" .admin (name? BuildTarget.ofName?)
  let langTarget ← fields.withDefault? "lang_target" .both (name? Scope.ofName?)
  let componentCode ← fields.optional? "component_code" text?
  let maxResolveDepth ← fields.withDefault? "max_resolve_depth" 32 nat?
  some { langPrefix, buildTarget, langTarget, componentCode, maxResolveDepth }

def ofJson? (value : Json) : Option Config := ofDocument? (.ofJson value)

end Config

end ViewBuilder
