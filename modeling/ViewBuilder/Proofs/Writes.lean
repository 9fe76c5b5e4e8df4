import Mathlib.Data.List.Dedup
import ViewBuilder.Proofs.Entries

/-!
# Writes one after the other

In a store where a write changes what is read for one key and nothing else, each key has what was
written for it last. If a write also adds at most its own key, then the store has as many keys as
were written.
-/

namespace ViewBuilder.Entries

variable {κ α : Type} [DecidableEq κ] {key : κ} {value : α} {entries : List (κ × α)}

/-! ## The last entry -/

/-- The value of the last entry with a key. -/
def last? (key : κ) : List (κ × α) → Option α
  | [] => none
  | (k, value) :: rest => (last? key rest).or (if k = key then some value else none)

theorem last?_append (key : κ) (entries more : List (κ × α)) :
    last? key (entries ++ more) = (last? key more).or (last? key entries) := by
  induction entries with
  | nil => rw [List.nil_append, last?, Option.or_none]
  | cons entry rest ih => rw [List.cons_append, last?, last?, ih, Option.or_assoc]

theorem mem_of_last? (h : last? key entries = some value) : (key, value) ∈ entries := by
  induction entries with
  | nil => cases h
  | cons entry rest ih =>
    obtain ⟨k, first⟩ := entry
    rcases Option.or_eq_some_iff.1 h with hrest | ⟨-, hfirst⟩
    · exact List.mem_cons_of_mem _ (ih hrest)
    · split at hfirst
      · rename_i hkey
        cases hfirst
        exact hkey ▸ List.mem_cons_self
      · cases hfirst

theorem last?_eq_none_iff : last? key entries = none ↔ key ∉ keys entries := by
  induction entries with
  | nil => simp [last?, keys]
  | cons entry rest ih =>
    rw [last?, Option.or_eq_none_iff, ih, keys, keys, List.map_cons, List.mem_cons, not_or, and_comm]
    simp [eq_comm]

theorem last?_eq_some (hmem : (key, value) ∈ entries)
    (hunique : ∀ other, (key, other) ∈ entries → other = value) :
    last? key entries = some value := by
  cases hlast : last? key entries with
  | none => exact absurd (List.mem_map_of_mem hmem) (last?_eq_none_iff.1 hlast)
  | some other => rw [hunique other (mem_of_last? hlast)]

/-- Entries with other keys do not count. -/
theorem last?_filter {keep : κ × α → Bool} (h : ∀ value, keep (key, value) = true) :
    last? key (entries.filter keep) = last? key entries := by
  induction entries with
  | nil => rfl
  | cons entry rest ih =>
    obtain ⟨k, first⟩ := entry
    by_cases hkey : k = key
    · rw [hkey, List.filter_cons_of_pos (h first), last?, last?, ih]
    · rw [last?, if_neg hkey, Option.or_none, ← ih, List.filter_cons]
      split
      · rw [last?, if_neg hkey, Option.or_none]
      · rfl

/-- Without a key twice, the last entry with a key is the only one. -/
theorem last?_eq_get? (h : (keys entries).Nodup) : last? key entries = get? key entries := by
  cases hget : get? key entries with
  | none => exact last?_eq_none_iff.2 (get?_eq_none_iff.1 hget)
  | some value =>
    refine last?_eq_some (mem_of_get? hget) fun other hmem => ?_
    rw [(get?_eq_some_iff h).2 hmem] at hget
    exact Option.some.inj hget

/-! ## Stores -/

/-- A write changes what is read for the key of its entry, and nothing else. -/
def Keyed {σ β : Type} (read : σ → κ → Option α) (write : σ → β → σ) (entry : β → κ × α) : Prop :=
  ∀ store change key, read (write store change) key =
    if (entry change).1 = key then some (entry change).2 else read store key

section

variable {σ β : Type} {read : σ → κ → Option α} {write : σ → β → σ} {entry : β → κ × α}
  {count : σ → Nat} {store : σ}

/-- Each key has what was written for it last. -/
theorem Keyed.read_foldl (h : Keyed read write entry) (store : σ) (changes : List β) (key : κ) :
    read (changes.foldl write store) key =
      (last? key (changes.map entry)).or (read store key) := by
  induction changes generalizing store with
  | nil => rfl
  | cons change rest ih =>
    rw [List.foldl_cons, ih, h, List.map_cons, last?, Option.or_assoc]
    congr 1
    split <;> rfl

theorem length_dedup_concat (l : List κ) (key : κ) :
    (l ++ [key]).dedup.length = if key ∈ l then l.dedup.length else l.dedup.length + 1 := by
  rw [(List.perm_append_singleton key l).dedup.length_eq]
  split
  · rename_i hmem
    rw [List.dedup_cons_of_mem hmem]
  · rename_i hnew
    rw [List.dedup_cons_of_notMem hnew, List.length_cons]

/-- A store that starts empty has as many keys as were written. -/
theorem Keyed.count_foldl (h : Keyed read write entry)
    (hcount : ∀ store change, count (write store change) =
      if (read store (entry change).1).isSome then count store else count store + 1)
    (hempty : ∀ key, read store key = none) (hzero : count store = 0) (changes : List β) :
    count (changes.foldl write store) = (keys (changes.map entry)).dedup.length := by
  induction changes using List.reverseRecOn with
  | nil => exact hzero
  | append_singleton changes change ih =>
    have hknown : (read (changes.foldl write store) (entry change).1).isSome = true ↔
        (entry change).1 ∈ keys (changes.map entry) := by
      rw [h.read_foldl, hempty, Option.or_none, Option.isSome_iff_ne_none, Ne, last?_eq_none_iff,
        not_not]
    have hkeys : keys ((changes ++ [change]).map entry) =
        keys (changes.map entry) ++ [(entry change).1] := by simp [keys]
    rw [List.foldl_concat, hcount, ih, hkeys, length_dedup_concat]
    simp only [hknown]

end

end ViewBuilder.Entries
