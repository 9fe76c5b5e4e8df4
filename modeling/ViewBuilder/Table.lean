import ViewBuilder.Text

/-!
# Tables

A table maps texts to values and keeps its entries in ascending order of the keys. The order of
texts is by code point, which is also the order of their encoded bytes.
-/

namespace ViewBuilder

structure Table (α : Type) where
  entries : List (Text × α)
  sorted : entries.Pairwise fun a b => a.1 < b.1

namespace Table

variable {α : Type}

/-! ## Sorted lists -/

def get?In (key : Text) : List (Text × α) → Option α
  | [] => none
  | (k, value) :: rest => if k = key then some value else get?In key rest

def insertIn (key : Text) (value : α) : List (Text × α) → List (Text × α)
  | [] => [(key, value)]
  | (k, old) :: rest =>
    if key < k then (key, value) :: (k, old) :: rest
    else if k = key then (key, value) :: rest
    else (k, old) :: insertIn key value rest

theorem mem_insertIn {key : Text} {value : α} {entries : List (Text × α)} {e : Text × α}
    (h : e ∈ insertIn key value entries) : e = (key, value) ∨ e ∈ entries := by
  induction entries with
  | nil => simpa [insertIn] using h
  | cons first rest ih =>
    obtain ⟨k, old⟩ := first
    rw [insertIn] at h
    split at h
    · simpa using h
    · split at h
      · rcases List.mem_cons.1 h with h | h
        · exact .inl h
        · exact .inr (List.mem_cons_of_mem _ h)
      · rcases List.mem_cons.1 h with h | h
        · exact .inr (h ▸ List.mem_cons_self)
        · exact (ih h).imp_right (List.mem_cons_of_mem _)

theorem sorted_insertIn (key : Text) (value : α) {entries : List (Text × α)}
    (h : entries.Pairwise fun a b => a.1 < b.1) :
    (insertIn key value entries).Pairwise fun a b => a.1 < b.1 := by
  induction entries with
  | nil => simp [insertIn]
  | cons first rest ih =>
    obtain ⟨k, old⟩ := first
    obtain ⟨hk, hr⟩ := List.pairwise_cons.1 h
    rw [insertIn]
    split
    · rename_i hlt
      refine List.pairwise_cons.2 ⟨fun e he => ?_, h⟩
      rcases List.mem_cons.1 he with rfl | he
      · exact hlt
      · exact List.lt_trans hlt (hk e he)
    · rename_i hge
      split
      · rename_i heq
        subst heq
        exact List.pairwise_cons.2 ⟨hk, hr⟩
      · rename_i hne
        refine List.pairwise_cons.2 ⟨fun e he => ?_, ih hr⟩
        rcases mem_insertIn he with rfl | he
        · exact (List.le_iff_lt_or_eq.1 (List.not_lt.1 hge)).resolve_right hne
        · exact hk e he

theorem get?In_insertIn_self (key : Text) (value : α) (entries : List (Text × α)) :
    get?In key (insertIn key value entries) = some value := by
  induction entries with
  | nil => simp [insertIn, get?In]
  | cons first rest ih =>
    rw [insertIn]
    split
    · simp [get?In]
    · split <;> simp_all [get?In]

theorem get?In_insertIn_of_ne {key other : Text} (h : key ≠ other) (value : α)
    (entries : List (Text × α)) :
    get?In other (insertIn key value entries) = get?In other entries := by
  induction entries with
  | nil => simp [insertIn, get?In, h]
  | cons first rest ih =>
    obtain ⟨k, old⟩ := first
    rw [insertIn]
    split
    · simp [get?In, h]
    · split
      · rename_i hk
        simp [get?In, hk, h]
      · simp [get?In, ih]

/-! ## Tables -/

def empty : Table α := ⟨[], .nil⟩

instance : Inhabited (Table α) := ⟨empty⟩

def get? (table : Table α) (key : Text) : Option α := get?In key table.entries

def insert (table : Table α) (key : Text) (value : α) : Table α :=
  ⟨insertIn key value table.entries, sorted_insertIn key value table.sorted⟩

def erase (table : Table α) (key : Text) : Table α :=
  ⟨table.entries.filter fun e => e.1 ≠ key, table.sorted.filter _⟩

def size (table : Table α) : Nat := table.entries.length

def isEmpty (table : Table α) : Bool := table.entries.isEmpty

def contains (table : Table α) (key : Text) : Bool := (table.get? key).isSome

def keys (table : Table α) : List Text := table.entries.map (·.1)

/-- The table of a list of entries; of two entries with one key the later counts. -/
def ofList (entries : List (Text × α)) : Table α :=
  entries.foldl (fun table (key, value) => table.insert key value) empty

@[simp] theorem get?_insert_self (table : Table α) (key : Text) (value : α) :
    (table.insert key value).get? key = some value :=
  get?In_insertIn_self key value table.entries

theorem get?_insert_of_ne (table : Table α) {key other : Text} (h : key ≠ other) (value : α) :
    (table.insert key value).get? other = table.get? other :=
  get?In_insertIn_of_ne h value table.entries

end Table

end ViewBuilder
