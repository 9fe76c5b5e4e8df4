import ViewBuilder.Config
import ViewBuilder.Toml.Document

/-!
# Config files

A config file is a TOML text whose top table holds the settings. Other keys do not matter. A file
that does not read as a config is told apart from one whose config no run can work with.
-/

namespace ViewBuilder.Config

open Toml

/-! ## Settings -/

def textSetting? : Toml → Option Text
  | .string t => some t
  | _ => none

/-- A count that fits 64 bits. -/
def countSetting? : Toml → Option Nat
  | .integer n => if 0 ≤ n ∧ n.natAbs < Text.wordLimit then some n.toNat else none
  | _ => none

/-- A name among known ones, as a text or as the one key of a table, with an empty value. -/
def nameSetting? (read : Text → Option α) : Toml → Option α
  | .string t => read t
  | .table _ [(key, .table _ [])] => read key
  | .table _ [(key, .array [])] => read key
  | _ => none

def setting? (name : Text) (default : α) (read : Toml → Option α) (fields : Fields) : Option α :=
  match Entries.get? name fields with
  | none => some default
  | some value => read value

/-! ## Files -/

def ofFields? (fields : Fields) : Option Config := do
  let langPrefix ← (Entries.get? "lang_prefix".toList fields).bind textSetting?
  let buildTarget ← setting? "build_target" .admin (nameSetting? BuildTarget.ofName?) fields
  let langTarget ← setting? "lang_target" .both (nameSetting? Scope.ofName?) fields
  let componentCode ←
    setting? "component_code" none (fun value => (textSetting? value).map some) fields
  let maxResolveDepth ← setting? "max_resolve_depth" 32 countSetting? fields
  some { langPrefix, buildTarget, langTarget, componentCode, maxResolveDepth }

/-- The config of a file, checked. -/
def parseFile (t : Text) : Except Failure Config :=
  match (Toml.parse? t).bind ofFields? with
  | none => .error .toml
  | some config => config.validate

end ViewBuilder.Config
