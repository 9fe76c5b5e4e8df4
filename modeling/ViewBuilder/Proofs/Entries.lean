import Mathlib.Data.List.Nodup
import ViewBuilder.Proofs.Registry.Shape
import ViewBuilder.Table

/-!
# Entries without a key twice

Where no key comes twice, an entry is read at its key, and what is read depends on the entries only
and not on their order. Entries that are put one after the other have no key twice.
-/

namespace ViewBuilder

namespace Entries

variable {κ α : Type} [DecidableEq κ] {key : κ} {value : α} {before after : List (κ × α)}

theorem get?_eq_none_iff : get? key before = none ↔ key ∉ keys before := by
  induction before with
  | nil => simp [get?, keys]
  | cons entry rest ih =>
    rw [get?, keys, List.map_cons, List.mem_cons, not_or, ← keys, ← ih]
    split
    · rename_i hkey
      simp [hkey]
    · rename_i hkey
      simp [Ne.symm hkey]

theorem get?_put (key other : κ) (value : α) (entries : List (κ × α)) :
    get? other (put key value entries) = if key = other then some value else get? other entries := by
  split
  · rename_i hkey
    rw [← hkey, get?_put_self]
  · rename_i hkey
    rw [get?_put_of_ne hkey]

theorem length_put (key : κ) (value : α) (entries : List (κ × α)) :
    (put key value entries).length =
      if (get? key entries).isSome then entries.length else entries.length + 1 := by
  have hknown : (get? key entries).isSome = true ↔ key ∈ keys entries := by
    rw [Option.isSome_iff_ne_none, Ne, get?_eq_none_iff, not_not]
  have hlength := congrArg List.length (keys_put key value entries)
  rw [keys, List.length_map] at hlength
  rw [hlength]
  simp only [hknown]
  split <;> simp [keys]

theorem get?_append (key : κ) (entries more : List (κ × α)) :
    get? key (entries ++ more) = (get? key entries).or (get? key more) := by
  induction entries with
  | nil => rw [List.nil_append, get?, Option.none_or]
  | cons entry rest ih =>
    obtain ⟨other, value⟩ := entry
    rw [List.cons_append, get?, get?, ih]
    split
    · rw [Option.some_or]
    · rfl

theorem get?_eq_some_iff (hb : (keys before).Nodup) :
    get? key before = some value ↔ (key, value) ∈ before := by
  refine ⟨mem_of_get?, fun hmem => ?_⟩
  cases hget : get? key before with
  | none => exact absurd (List.mem_map_of_mem hmem) (get?_eq_none_iff.1 hget)
  | some found =>
    have hsame := List.inj_on_of_nodup_map hb (mem_of_get? hget) hmem rfl
    exact congrArg some (Prod.mk.inj hsame).2

/-- Without a key twice, what is read depends on the entries only and not on their order. -/
theorem get?_perm (hb : (keys before).Nodup) (h : before.Perm after) (key : κ) :
    get? key before = get? key after := by
  apply Option.ext
  intro value
  rw [get?_eq_some_iff hb, get?_eq_some_iff ((h.map Prod.fst).nodup_iff.1 hb), h.mem_iff]

theorem nodup_keys_foldl_put (entries : List (κ × α)) (h : (keys before).Nodup) :
    (keys (entries.foldl (fun done entry => put entry.1 entry.2 done) before)).Nodup := by
  induction entries generalizing before with
  | nil => exact h
  | cons entry rest ih => exact ih (nodup_keys_put h)

theorem nodup_keys_collapse (entries : List (κ × α)) : (keys (collapse entries)).Nodup :=
  nodup_keys_foldl_put entries .nil

theorem mem_or_mem_of_mem_foldl_put {entry : κ × α} {entries : List (κ × α)}
    (h : entry ∈ entries.foldl (fun done entry => put entry.1 entry.2 done) before) :
    entry ∈ entries ∨ entry ∈ before := by
  induction entries generalizing before with
  | nil => exact .inr h
  | cons first rest ih =>
    rcases ih h with h | h
    · exact .inl (List.mem_cons_of_mem _ h)
    · rcases mem_put h with rfl | h
      · exact .inl List.mem_cons_self
      · exact .inr h

theorem mem_of_mem_collapse {entry : κ × α} {entries : List (κ × α)}
    (h : entry ∈ collapse entries) : entry ∈ entries :=
  (mem_or_mem_of_mem_foldl_put h).resolve_right (List.not_mem_nil)

end Entries

/-- A table is read in the same way. -/
theorem Table.get?In_eq_get? {α : Type} (key : Text) (entries : List (Text × α)) :
    Table.get?In key entries = Entries.get? key entries := by
  induction entries with
  | nil => rfl
  | cons entry rest ih => rw [Table.get?In, Entries.get?, ih]

end ViewBuilder
