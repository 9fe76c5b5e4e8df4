import ViewBuilder.Proofs.Registry.Set

/-!
# Objects whose entries have a property

Changes at one place of an object add up to one change, and they keep a property of all its entries
if they keep it of the entry on their way.
-/

namespace ViewBuilder

/-! ## Entries -/

namespace Entries

variable {κ α : Type} [DecidableEq κ] {key : κ} {value : α} {entries : List (κ × α)}

theorem put_ne_nil : put key value entries ≠ [] := by
  intro hnil
  have hget := get?_put_self key value entries
  rw [hnil] at hget
  cases hget

theorem put_put (new : α) : put key new (put key value entries) = put key new entries := by
  induction entries with
  | nil => simp [put]
  | cons entry rest ih =>
    obtain ⟨other, old⟩ := entry
    by_cases h : other = key
    · simp [put, h]
    · simp [put, h, ih]

theorem mem_of_get? (h : get? key entries = some value) : (key, value) ∈ entries := by
  induction entries with
  | nil => cases h
  | cons entry rest ih =>
    obtain ⟨other, old⟩ := entry
    rw [get?] at h
    split at h
    · rename_i hkey
      obtain rfl := Option.some.inj h
      rw [hkey]
      exact List.mem_cons_self
    · exact List.mem_cons_of_mem _ (ih h)

theorem mem_put {entry : κ × α} (h : entry ∈ put key value entries) :
    entry = (key, value) ∨ entry ∈ entries := by
  induction entries with
  | nil => exact .inl (List.mem_singleton.1 h)
  | cons first rest ih =>
    rw [put] at h
    split at h
    · exact (List.mem_cons.1 h).imp_right (List.mem_cons_of_mem _)
    · rcases List.mem_cons.1 h with rfl | h
      · exact .inr List.mem_cons_self
      · exact (ih h).imp_right (List.mem_cons_of_mem _)

theorem nodup_keys_put (h : (keys entries).Nodup) : (keys (put key value entries)).Nodup := by
  rw [keys_put]
  split
  · exact h
  · rename_i hnew
    refine List.nodup_append.2 ⟨h, List.pairwise_singleton _ _, fun old hold last hlast hsame => ?_⟩
    obtain rfl := List.mem_singleton.1 hlast
    exact hnew (hsame ▸ hold)

end Entries

namespace Json

/-! ## Changes at a place -/

/-- Changes what is at a place, null where nothing is. -/
def updateAt (change : Json → Json) : List Text → Json → Json
  | [], value => change value
  | segment :: rest, value =>
    let entries := value.entries?.getD []
    let child := (Entries.get? segment entries).getD .null
    .object (Entries.put segment (updateAt change rest child) entries)

theorem putAt_append (new : Json) (path rest : List Text) (value : Json) :
    putAt new (path ++ rest) value = updateAt (putAt new rest) path value := by
  induction path generalizing value with
  | nil => rfl
  | cons segment more ih =>
    rw [List.cons_append, putAt, updateAt]
    rw [ih]

theorem updateAt_updateAt (first second : Json → Json) (path : List Text) (value : Json) :
    updateAt second path (updateAt first path value) =
      updateAt (fun child => second (first child)) path value := by
  induction path generalizing value with
  | nil => rfl
  | cons segment rest ih =>
    rw [updateAt, updateAt, updateAt]
    rw [entries?_object, Option.getD_some, Entries.get?_put_self, Option.getD_some, ih,
      Entries.put_put]

/-! ## Objects -/

/-- The value is an object, no key comes twice, and all entries have a property. -/
def Holds (P : Text → Json → Prop) : Json → Prop
  | .object entries => (Entries.keys entries).Nodup ∧ ∀ entry ∈ entries, P entry.1 entry.2
  | _ => False

variable {P : Text → Json → Prop}

theorem Holds.updateAt {change : Json → Json} {segment : Text} {rest : List Text} {value : Json}
    (h : value = .null ∨ value.Holds P)
    (hchild : ∀ child, child = .null ∨ P segment child → P segment (updateAt change rest child)) :
    (Json.updateAt change (segment :: rest) value).Holds P := by
  obtain ⟨hnodup, hentries⟩ : (Entries.keys (value.entries?.getD [])).Nodup ∧
      ∀ entry ∈ value.entries?.getD [], P entry.1 entry.2 := by
    rcases h with rfl | h
    · exact ⟨.nil, nofun⟩
    · cases value with
      | object entries => exact h
      | null | bool | number | string | array => cases h
  refine ⟨Entries.nodup_keys_put hnodup, fun entry hmem => ?_⟩
  rcases Entries.mem_put hmem with rfl | hmem
  · apply hchild
    cases hget : Entries.get? segment (value.entries?.getD []) with
    | none => exact .inl rfl
    | some child => exact .inr (hentries _ (Entries.mem_of_get? hget))
  · exact hentries entry hmem

theorem Holds.putAt {new : Json} {segment : Text} {rest : List Text} {value : Json}
    (h : value = .null ∨ value.Holds P)
    (hchild : ∀ child, child = .null ∨ P segment child → P segment (putAt new rest child)) :
    (Json.putAt new (segment :: rest) value).Holds P := by
  rw [← List.singleton_append, putAt_append]
  exact Holds.updateAt h hchild

end Json

end ViewBuilder
