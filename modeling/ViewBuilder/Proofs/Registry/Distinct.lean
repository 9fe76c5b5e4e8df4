import ViewBuilder.Proofs.Json.ReadBack
import ViewBuilder.Proofs.Registry.Overlap

/-!
# Objects without a key twice

An object is a list of entries, and a list could have a key twice. The objects of a registry do
not: a value that is read from a document has no key twice (`distinctKeys_of_value?`), and setting
a path keeps that.
-/

namespace ViewBuilder

namespace Json

/-! ## Values -/

/-- No object that a path leads to has a key twice. -/
def DistinctKeys (value : Json) : Prop :=
  ∀ path entries, at? path value = some (.object entries) → (Entries.keys entries).Nodup

theorem at?_object_cons (segment : Text) (rest : List Text) (entries : List (Text × Json)) :
    at? (segment :: rest) (.object entries) = (Entries.get? segment entries).bind (at? rest) := rfl

theorem distinctKeys_of_entries?_eq_none {value : Json} (h : value.entries? = none) :
    value.DistinctKeys := by
  rintro (_ | ⟨segment, rest⟩) entries hat
  · obtain rfl := Option.some.inj hat
    cases h
  · rw [at?, h] at hat
    cases hat

theorem distinctKeys_object_iff {entries : List (Text × Json)} :
    (object entries).DistinctKeys ↔
      (Entries.keys entries).Nodup ∧ ∀ entry ∈ entries, entry.2.DistinctKeys := by
  constructor
  · intro h
    have hnodup : (Entries.keys entries).Nodup := h [] entries rfl
    refine ⟨hnodup, fun entry hmem path inner hat => h (entry.1 :: path) inner ?_⟩
    rw [at?_object_cons, (Entries.get?_eq_some_iff hnodup).2 hmem, Option.bind_some, hat]
  · rintro ⟨hnodup, hvalues⟩ (_ | ⟨segment, rest⟩) inner hat
    · cases hat
      exact hnodup
    · rw [at?_object_cons, Option.bind_eq_some_iff] at hat
      obtain ⟨child, hchild, hrest⟩ := hat
      exact hvalues _ (Entries.mem_of_get? hchild) rest inner hrest

theorem DistinctKeys.at? {value inner : Json} {path : List Text} (h : value.DistinctKeys)
    (hat : at? path value = some inner) : inner.DistinctKeys := by
  intro rest entries hrest
  apply h (path ++ rest) entries
  rw [at?_append, hat, Option.bind_some, hrest]

theorem DistinctKeys.entries {value : Json} (h : value.DistinctKeys) :
    (Entries.keys (value.entries?.getD [])).Nodup ∧
      ∀ entry ∈ value.entries?.getD [], entry.2.DistinctKeys := by
  cases value with
  | object entries => exact distinctKeys_object_iff.1 h
  | null | bool | number | string | array => exact ⟨.nil, nofun⟩

theorem DistinctKeys.putAt {new value : Json} (hnew : new.DistinctKeys) (path : List Text)
    (h : value.DistinctKeys) : (putAt new path value).DistinctKeys := by
  induction path generalizing value with
  | nil => exact hnew
  | cons segment rest ih =>
    obtain ⟨hnodup, hvalues⟩ := h.entries
    refine distinctKeys_object_iff.2 ⟨Entries.nodup_keys_put hnodup, fun entry hmem => ?_⟩
    rcases Entries.mem_put hmem with rfl | hmem
    · apply ih
      cases hget : Entries.get? segment (value.entries?.getD []) with
      | none => exact distinctKeys_of_entries?_eq_none rfl
      | some child => exact hvalues _ (Entries.mem_of_get? hget)
    · exact hvalues entry hmem

theorem WellFormed.distinctKeys {value : Json} (h : value.WellFormed) : value.DistinctKeys := by
  induction h with
  | null | bool | number | string | array => exact distinctKeys_of_entries?_eq_none rfl
  | object hkeys _ ih => exact distinctKeys_object_iff.2 ⟨hkeys, ih⟩

/-- A value that is read has no key twice, whatever the document says. -/
theorem distinctKeys_of_value? (document : Document) {value : Json}
    (h : document.value? = some value) : value.DistinctKeys :=
  (Document.wellFormed_of_value? document h).distinctKeys

end Json

/-! ## The registry -/

namespace Registry

/-- No object of the registry has a key twice. -/
def DistinctKeys (registry : Registry) : Prop := registry.toJson.DistinctKeys

theorem distinctKeys_empty : empty.DistinctKeys :=
  Json.distinctKeys_object_iff.2 ⟨.nil, nofun⟩

theorem DistinctKeys.set {registry : Registry} {value : Json} (h : registry.DistinctKeys)
    (path : RegistryPath) (hv : value.DistinctKeys) : (registry.set path value).DistinctKeys := by
  rw [DistinctKeys, toJson_set]
  exact hv.putAt path.segments h

end Registry

end ViewBuilder
