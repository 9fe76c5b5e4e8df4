import ViewBuilder.Digest
import ViewBuilder.Json.Basic
import ViewBuilder.Registry.Path

/-!
# The registry

The registry holds what a run has built, as a tree of JSON objects with one level for each segment
of a path. Setting a path puts objects in the place of what stands in its way.
-/

namespace ViewBuilder

/-! ## Places inside a value -/

namespace Json

/-- The value at a place inside a value. -/
def at? : List Text → Json → Option Json
  | [], value => some value
  | segment :: rest, value => value.entries?.bind fun entries =>
    (Entries.get? segment entries).bind (at? rest)

/-- Puts a value at a place. What is no object on the way becomes one. -/
def putAt (new : Json) : List Text → Json → Json
  | [], _ => new
  | segment :: rest, value =>
    let entries := value.entries?.getD []
    let child := (Entries.get? segment entries).getD .null
    .object (Entries.put segment (putAt new rest child) entries)

/-- Takes out what is at a place, and says what it was. -/
def takeAt? : List Text → List (Text × Json) → Option (Json × List (Text × Json))
  | [], _ => none
  | [last], entries => (Entries.get? last entries).map fun old => (old, Entries.erase last entries)
  | segment :: rest, entries =>
    (Entries.get? segment entries).bind fun child =>
      child.entries?.bind fun inner =>
        (takeAt? rest inner).map fun (old, inner) =>
          (old, Entries.put segment (.object inner) entries)

end Json

/-! ## The registry -/

structure Registry where
  root : List (Text × Json)

namespace Registry

def empty : Registry := ⟨[]⟩

def toJson (registry : Registry) : Json := .object registry.root

def isEmpty (registry : Registry) : Bool := registry.root.isEmpty

def get? (registry : Registry) (path : RegistryPath) : Option Json :=
  registry.toJson.at? path.segments

/-- The value at a path unless it is null. -/
def present? (registry : Registry) (path : RegistryPath) : Option Json :=
  (registry.get? path).filter fun value => !value.isNull

def getD (registry : Registry) (path : RegistryPath) (default : Json) : Json :=
  (registry.present? path).getD default

/-- Whether something other than null is stored at a path. -/
def has (registry : Registry) (path : RegistryPath) : Bool := (registry.present? path).isSome

/-- The value at a path, read as something else; none when nothing is stored there. -/
def getAs (read : Json → Option α) (registry : Registry) (path : RegistryPath) :
    Except Failure (Option α) :=
  match registry.present? path with
  | none => .ok none
  | some value =>
    match read value with
    | some a => .ok (some a)
    | none => .error .json

def set (registry : Registry) (path : RegistryPath) (value : Json) : Registry :=
  ⟨(Json.putAt value path.segments registry.toJson).entries?.getD []⟩

/-- Removes what is stored at a path, and says what it was. -/
def remove (registry : Registry) (path : RegistryPath) : Option Json × Registry :=
  match Json.takeAt? path.segments registry.root with
  | none => (none, registry)
  | some (old, root) => (some old, ⟨root⟩)

def text (registry : Registry) : Text := registry.toJson.render

/-- Two runs over the same input have the same checksum. -/
def checksum (registry : Registry) : Text := "sha256:" ++ Digest.hex registry.text

end Registry

end ViewBuilder
