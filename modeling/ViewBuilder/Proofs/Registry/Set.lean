import Mathlib.Data.List.Infix
import ViewBuilder.Registry

/-!
# What setting a path changes

After a value is set, its path reads as that value. A path that diverges from it reads as before,
also where something that is no object had to give way.
-/

namespace ViewBuilder

theorem Entries.put_eq_self {κ α : Type} [DecidableEq κ] {key : κ} {value : α}
    {entries : List (κ × α)} (h : get? key entries = some value) :
    put key value entries = entries := by
  induction entries with
  | nil => cases h
  | cons entry rest ih =>
    obtain ⟨other, old⟩ := entry
    rw [get?] at h
    split at h
    · rename_i hkey
      rw [put, if_pos hkey, hkey, Option.some.inj h]
    · rename_i hkey
      rw [put, if_neg hkey, ih h]

/-! ## Inside a value -/

namespace Json

@[simp] theorem entries?_null : null.entries? = none := rfl

@[simp] theorem entries?_object (entries : List (Text × Json)) :
    (object entries).entries? = some entries := rfl

theorem at?_null_of_ne_nil {segments : List Text} (h : segments ≠ []) :
    at? segments .null = none := by
  cases segments with
  | nil => exact absurd rfl h
  | cons segment rest => rfl

theorem at?_putAt_self (new value : Json) (path : List Text) :
    at? path (putAt new path value) = some new := by
  induction path generalizing value with
  | nil => rfl
  | cons segment rest ih => simp [putAt, at?, ih]

theorem at?_putAt_of_not_prefix {path other : List Text} (new value : Json)
    (hp : ¬ path <+: other) (ho : ¬ other <+: path) :
    at? other (putAt new path value) = at? other value := by
  induction path generalizing other value with
  | nil => exact absurd List.nil_prefix hp
  | cons segment rest ih =>
    cases other with
    | nil => exact absurd List.nil_prefix ho
    | cons first more =>
      simp only [putAt, at?, entries?_object, Option.bind_some]
      by_cases hs : segment = first
      · subst hs
        simp only [List.cons_prefix_cons, true_and] at hp ho
        have hmore : more ≠ [] := by rintro rfl; exact ho List.nil_prefix
        rw [Entries.get?_put_self, Option.bind_some, ih _ hp ho]
        -- Where nothing was before, `putAt` went on with null, and null holds nothing.
        cases value.entries? with
        | none => simp [Entries.get?, at?_null_of_ne_nil hmore]
        | some entries =>
          cases hg : Entries.get? segment entries with
          | none => simp [hg, at?_null_of_ne_nil hmore]
          | some child => simp [hg]
      · rw [Entries.get?_put_of_ne hs]
        cases value.entries? <;> rfl

theorem putAt_eq_self {path : List Text} {new value : Json} (h : at? path value = some new) :
    putAt new path value = value := by
  induction path generalizing value with
  | nil => exact (Option.some.inj h).symm
  | cons segment rest ih =>
    rw [at?, Option.bind_eq_some_iff] at h
    obtain ⟨entries, hentries, hsegment⟩ := h
    obtain ⟨child, hchild, hrest⟩ := Option.bind_eq_some_iff.1 hsegment
    cases value with
    | object all =>
      obtain rfl : all = entries := Option.some.inj hentries
      rw [putAt, entries?_object, Option.getD_some, hchild, Option.getD_some, ih hrest,
        Entries.put_eq_self hchild]
    | null | bool | number | string | array => cases hentries

end Json

/-! ## In the registry -/

/-- Neither path leads through the other. -/
def RegistryPath.Diverges (path other : RegistryPath) : Prop :=
  ¬ path.segments <+: other.segments ∧ ¬ other.segments <+: path.segments

namespace Registry

theorem toJson_set (registry : Registry) (path : RegistryPath) (value : Json) :
    (registry.set path value).toJson = Json.putAt value path.segments registry.toJson := by
  obtain ⟨segments, hne, -⟩ := path
  cases segments with
  | nil => exact absurd rfl hne
  | cons segment rest => rfl

@[simp] theorem get?_set_self (registry : Registry) (path : RegistryPath) (value : Json) :
    (registry.set path value).get? path = some value := by
  rw [get?, toJson_set, Json.at?_putAt_self]

theorem get?_set_of_diverges (registry : Registry) {path other : RegistryPath} (value : Json)
    (h : path.Diverges other) : (registry.set path value).get? other = registry.get? other := by
  rw [get?, toJson_set, Json.at?_putAt_of_not_prefix _ _ h.1 h.2, get?]

/-- Setting what is there already changes nothing, not even the order of keys. -/
theorem set_eq_self {registry : Registry} {path : RegistryPath} {value : Json}
    (h : registry.get? path = some value) : registry.set path value = registry := by
  rw [set, Json.putAt_eq_self h]
  rfl

theorem has_eq_of_get?_eq {registry other : Registry} {path : RegistryPath}
    (h : registry.get? path = other.get? path) : registry.has path = other.has path := by
  rw [has, present?, h, has, present?]

theorem has_of_get? {registry : Registry} {path : RegistryPath} {value : Json}
    (h : registry.get? path = some value) (hv : value.isNull = false) :
    registry.has path = true := by
  simp [has, present?, h, hv]

theorem getAs_of_get? {α : Type} {read : Json → Option α} {registry : Registry}
    {path : RegistryPath} {value : Json} {a : α} (h : registry.get? path = some value)
    (hv : value.isNull = false) (hread : read value = some a) :
    registry.getAs read path = .ok (some a) := by
  have hpresent : registry.present? path = some value := by simp [present?, h, hv]
  rw [getAs, hpresent]
  dsimp only
  rw [hread]

@[simp] theorem get?_empty (path : RegistryPath) : empty.get? path = none := by
  obtain ⟨segments, hne, -⟩ := path
  cases segments with
  | nil => exact absurd rfl hne
  | cons segment rest => rfl

@[simp] theorem has_empty (path : RegistryPath) : empty.has path = false := by
  simp [has, present?]

end Registry

end ViewBuilder
