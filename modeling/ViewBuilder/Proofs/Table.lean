import Mathlib.Data.List.Sort
import ViewBuilder.Proofs.Writes
import ViewBuilder.Tab.Compile

/-!
# Writing over

A table is known by what it has for each key. So entries that are written over leave nothing, and
writing the same entries a second time changes nothing, whatever the order of the keys and however
often one of them comes.
-/

namespace ViewBuilder

namespace Table

variable {α : Type}

/-! ## Equal tables -/

theorem nodup_keys (table : Table α) : table.keys.Nodup := by
  refine List.pairwise_map.2 (table.sorted.imp ?_)
  intro entry later hless hsame
  rw [hsame] at hless
  exact List.lt_irrefl _ hless

theorem get?In_append (key : Text) (entries more : List (Text × α)) :
    get?In key (entries ++ more) = (get?In key entries).or (get?In key more) := by
  rw [get?In_eq_get?, get?In_eq_get?, get?In_eq_get?, Entries.get?_append]

theorem mem_entries_iff {table : Table α} {key : Text} {value : α} :
    (key, value) ∈ table.entries ↔ table.get? key = some value := by
  rw [get?, get?In_eq_get?]
  exact (Entries.get?_eq_some_iff table.nodup_keys).symm

theorem mem_keys_iff {table : Table α} {key : Text} :
    key ∈ table.keys ↔ (table.get? key).isSome = true := by
  rw [Option.isSome_iff_exists, keys, List.mem_map]
  constructor
  · rintro ⟨⟨_, value⟩, hmem, rfl⟩
    exact ⟨value, mem_entries_iff.1 hmem⟩
  · rintro ⟨value, hvalue⟩
    exact ⟨(key, value), mem_entries_iff.2 hvalue, rfl⟩

theorem length_insertIn {key : Text} {entries : List (Text × α)} (value : α)
    (h : get?In key entries = none) :
    (insertIn key value entries).length = entries.length + 1 := by
  induction entries with
  | nil => rfl
  | cons entry rest ih =>
    obtain ⟨other, old⟩ := entry
    rw [get?In] at h
    split at h
    · cases h
    · rename_i hne
      rw [insertIn, if_neg hne]
      split
      · rfl
      · rw [List.length_cons, ih h, List.length_cons]

theorem get?_insert (table : Table α) (key other : Text) (value : α) :
    (table.insert key value).get? other = if key = other then some value else table.get? other := by
  split
  · rename_i hkey
    rw [← hkey, get?_insert_self]
  · rename_i hkey
    rw [get?_insert_of_ne table hkey]

theorem size_insert (table : Table α) (key : Text) (value : α) :
    (table.insert key value).size =
      if (table.get? key).isSome then table.size else table.size + 1 := by
  split
  · rename_i hknown
    have hkeys : ∀ other, other ∈ (table.insert key value).keys ↔ other ∈ table.keys := by
      intro other
      rw [mem_keys_iff, mem_keys_iff, get?_insert]
      split
      · rename_i hkey
        simp [← hkey, hknown]
      · rfl
    have hperm := (List.perm_ext_iff_of_nodup (nodup_keys _) table.nodup_keys).2 hkeys
    simpa [keys, size] using hperm.length_eq
  · rename_i hnew
    exact length_insertIn value (Option.not_isSome_iff_eq_none.1 hnew)

/-- An entry that is only taken for a key that has none yet. -/
theorem get?_insert_of_missing (table : Table α) (entry : Text × α) (key : Text) :
    (if table.contains entry.1 then table else table.insert entry.1 entry.2).get? key =
      (table.get? key).or (if entry.1 = key then some entry.2 else none) := by
  by_cases hkey : entry.1 = key
  · subst hkey
    rw [if_pos rfl, contains]
    cases hold : table.get? entry.1 with
    | some old => rw [Option.isSome_some, if_pos rfl, hold, Option.some_or]
    | none =>
      rw [Option.isSome_none, if_neg Bool.false_ne_true, get?_insert_self, Option.none_or]
  · rw [if_neg hkey, Option.or_none]
    split
    · rfl
    · exact get?_insert_of_ne table hkey entry.2

/-- A table is a store of its entries. -/
theorem keyed : Entries.Keyed (get? (α := α)) (fun table entry => table.insert entry.1 entry.2) id :=
  fun table entry key => table.get?_insert entry.1 key entry.2

theorem get?_erase (table : Table α) (key other : Text) :
    (table.erase key).get? other = if other = key then none else table.get? other := by
  apply Option.ext
  intro value
  rw [← mem_entries_iff, erase, List.mem_filter, mem_entries_iff]
  split
  · rename_i hkey
    simp [hkey]
  · rename_i hkey
    simp [hkey]

theorem ext_get? {table other : Table α} (h : ∀ key, table.get? key = other.get? key) :
    table = other := by
  have : Std.Asymm fun a b : Text × α => a.1 < b.1 := ⟨fun _ _ => List.lt_asymm⟩
  have : Std.Irrefl fun a b : Text × α => a.1 < b.1 := ⟨fun _ => List.lt_irrefl _⟩
  have hmem : ∀ entry, entry ∈ table.entries ↔ entry ∈ other.entries := by
    rintro ⟨key, value⟩
    rw [mem_entries_iff, mem_entries_iff, h]
  have hentries := table.sorted.eq_of_mem_iff other.sorted hmem
  obtain ⟨entries, hsorted⟩ := table
  obtain rfl : entries = other.entries := hentries
  rfl

/-! ## Many entries -/

def insertAll (table : Table α) (entries : List (Text × α)) : Table α :=
  entries.foldl (fun table entry => table.insert entry.1 entry.2) table

theorem insertAll_append (table : Table α) (entries more : List (Text × α)) :
    table.insertAll (entries ++ more) = (table.insertAll entries).insertAll more :=
  List.foldl_append

/-- The value of the last entry with a key. -/
def lastIn? (key : Text) : List (Text × α) → Option α
  | [] => none
  | (k, value) :: rest => (lastIn? key rest).or (if k = key then some value else none)

section

variable {key : Text} {value : α} {entries : List (Text × α)}

theorem lastIn?_eq_last? (key : Text) (entries : List (Text × α)) :
    lastIn? key entries = Entries.last? key entries := by
  induction entries with
  | nil => rfl
  | cons entry rest ih => rw [lastIn?, Entries.last?, ih]

theorem lastIn?_append (key : Text) (entries more : List (Text × α)) :
    lastIn? key (entries ++ more) = (lastIn? key more).or (lastIn? key entries) := by
  rw [lastIn?_eq_last?, lastIn?_eq_last?, lastIn?_eq_last?, Entries.last?_append]

theorem lastIn?_eq_none_iff : lastIn? key entries = none ↔ key ∉ entries.map (·.1) := by
  rw [lastIn?_eq_last?, Entries.last?_eq_none_iff, Entries.keys]

theorem lastIn?_eq_some (hmem : (key, value) ∈ entries)
    (hunique : ∀ other, (key, other) ∈ entries → other = value) :
    lastIn? key entries = some value := by
  rw [lastIn?_eq_last?, Entries.last?_eq_some hmem hunique]

/-- Of several entries with one key the last one is kept. -/
theorem get?_insertAll (table : Table α) (entries : List (Text × α)) (key : Text) :
    (table.insertAll entries).get? key = (lastIn? key entries).or (table.get? key) := by
  have hread := keyed.read_foldl table entries key
  rwa [List.map_id, ← lastIn?_eq_last?] at hread

theorem get?_insertAll_of_not_mem (h : key ∉ entries.map (·.1)) (table : Table α) :
    (table.insertAll entries).get? key = table.get? key := by
  rw [get?_insertAll, lastIn?_eq_none_iff.2 h, Option.none_or]

/-- A key of the entries gets its value from them. -/
theorem get?_insertAll_of_mem (h : key ∈ entries.map (·.1)) :
    ∃ value, ∀ table : Table α, (table.insertAll entries).get? key = some value := by
  cases hlast : lastIn? key entries with
  | none => exact absurd h (lastIn?_eq_none_iff.1 hlast)
  | some value => exact ⟨value, fun table => by rw [get?_insertAll, hlast, Option.some_or]⟩

end

/-- Entries that are written over leave nothing. -/
theorem insertAll_insertAll (table : Table α) {entries more : List (Text × α)}
    (h : entries.map (·.1) ⊆ more.map (·.1)) :
    (table.insertAll entries).insertAll more = table.insertAll more := by
  apply ext_get?
  intro key
  by_cases hkey : key ∈ more.map (·.1)
  · obtain ⟨value, hvalue⟩ := get?_insertAll_of_mem hkey
    rw [hvalue, hvalue]
  · rw [get?_insertAll_of_not_mem hkey, get?_insertAll_of_not_mem hkey,
      get?_insertAll_of_not_mem fun hmem => hkey (h hmem)]

end Table

/-! ## Language strings -/

theorem LanguageTable.setAll_eq (table : LanguageTable) (strings : List (Text × Text)) :
    table.setAll strings = { table with
      both := table.both.insertAll (strings.map fun (key, text) => (key, Text.trim text)) } := by
  induction strings generalizing table with
  | nil => rfl
  | cons entry rest ih => exact ih (table.set .both entry.1 entry.2)

theorem LanguageTable.setAll_setAll (table : LanguageTable) (strings : List (Text × Text)) :
    (table.setAll strings).setAll strings = table.setAll strings := by
  rw [setAll_eq (table.setAll strings), setAll_eq table,
    Table.insertAll_insertAll _ (List.Subset.refl _)]

theorem LanguageTable.get?_setAll (table : LanguageTable) (strings : List (Text × Text))
    (key : Text) :
    (table.setAll strings).get? .both key =
      (Table.lastIn? key (strings.map fun (key, text) => (key, Text.trim text))).or
        (table.get? .both key) := by
  rw [setAll_eq]
  exact Table.get?_insertAll ..

/-- A key of the strings gets its text from them. -/
theorem LanguageTable.get?_setAll_of_mem {strings : List (Text × Text)} {key : Text}
    (h : key ∈ strings.map (·.1)) :
    ∃ text, ∀ table : LanguageTable, (table.setAll strings).get? .both key = some text := by
  have hkey : key ∈ (strings.map fun (key, text) => (key, Text.trim text)).map (·.1) := by
    rwa [List.map_map]
  obtain ⟨text, htext⟩ := Table.get?_insertAll_of_mem hkey
  refine ⟨text, fun table => ?_⟩
  rw [setAll_eq]
  exact htext table.both

/-! ## Names of a view -/

namespace Placeholders

/-- A change that only writes entries for some keys, the same whatever is there. -/
def Overwrites (keys : List Text) (change : Placeholders → Placeholders) : Prop :=
  ∃ entries, entries.map (·.1) = keys ∧ ∀ p, (change p).forms = p.forms.insertAll entries

variable {keys : List Text} {change : Placeholders → Placeholders}

theorem overwrites_id : Overwrites [] fun p => p := ⟨[], rfl, fun _ => rfl⟩

theorem Overwrites.set (h : Overwrites keys change) (key value : Text) :
    Overwrites (keys ++ [hash key, bracket key]) fun p => (change p).set key value := by
  obtain ⟨entries, rfl, hentries⟩ := h
  refine ⟨entries ++ [(hash key, value), (bracket key, value)], List.map_append, fun p => ?_⟩
  rw [Table.insertAll_append, ← hentries]
  rfl

/-- Of two changes with the same keys only the later one counts. -/
theorem Overwrites.overwrite {next : Placeholders → Placeholders} (h : Overwrites keys change)
    (hnext : Overwrites keys next) (p : Placeholders) : next (change p) = next p := by
  obtain ⟨entries, hkeys, hentries⟩ := h
  obtain ⟨more, rfl, hmore⟩ := hnext
  have hsub : entries.map (·.1) ⊆ more.map (·.1) := by
    rw [hkeys]
    exact List.Subset.refl _
  have hforms : (next (change p)).forms = (next p).forms := by
    rw [hmore, hentries, hmore, Table.insertAll_insertAll _ hsub]
  exact congrArg Placeholders.mk hforms

/-- The keys of the names are the same for all views, whatever names an item gives. -/
theorem overwrites_setViewNames (config : Config) :
    ∃ keys, ∀ item, Overwrites keys fun p => p.setViewNames item config := by
  unfold setViewNames
  cases config.componentCode with
  | none =>
    exact ⟨_, fun item =>
      (((((overwrites_id.set _ _).set _ _).set _ _).set _ _).set _ _).set _ _⟩
  | some component =>
    exact ⟨_, fun item => ((((((((overwrites_id.set _ _).set _ _).set _ _).set _ _).set _ _).set
      _ _).set _ _).set _ _).set _ _⟩

/-- Nothing is left of the names of another view. -/
theorem setViewNames_setViewNames (p : Placeholders) (other item : ViewItem) (config : Config) :
    (p.setViewNames other config).setViewNames item config = p.setViewNames item config := by
  obtain ⟨keys, hkeys⟩ := overwrites_setViewNames config
  exact (hkeys other).overwrite (hkeys item) p

end Placeholders

end ViewBuilder
