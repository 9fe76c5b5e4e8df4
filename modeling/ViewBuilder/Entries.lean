/-!
# Keyed entries in the order they came in

A new key goes to the end and a key that is set again keeps its place. When an entry is removed,
the last one moves into its place.
-/

namespace ViewBuilder.Entries

variable {κ α : Type} [DecidableEq κ]

def keys (entries : List (κ × α)) : List κ := entries.map (·.1)

def get? (key : κ) : List (κ × α) → Option α
  | [] => none
  | (k, value) :: rest => if k = key then some value else get? key rest

def put (key : κ) (value : α) : List (κ × α) → List (κ × α)
  | [] => [(key, value)]
  | (k, old) :: rest =>
    if k = key then (key, value) :: rest else (k, old) :: put key value rest

/-- The entries without their first one, whose place the last one takes. -/
def fillGap (rest : List (κ × α)) : List (κ × α) :=
  match rest.getLast? with
  | none => []
  | some last => last :: rest.dropLast

def erase (key : κ) : List (κ × α) → List (κ × α)
  | [] => []
  | (k, value) :: rest => if k = key then fillGap rest else (k, value) :: erase key rest

/-- The entries of a list in which a key may come twice: the last value, at the first place. -/
def collapse (entries : List (κ × α)) : List (κ × α) :=
  entries.foldl (fun done (key, value) => put key value done) []

/-! ## Reading after a change -/

@[simp] theorem get?_put_self (key : κ) (value : α) (entries : List (κ × α)) :
    get? key (put key value entries) = some value := by
  induction entries with
  | nil => simp [put, get?]
  | cons e rest ih => by_cases h : e.1 = key <;> simp [put, get?, h, ih]

theorem get?_put_of_ne {key other : κ} (h : key ≠ other) (value : α) (entries : List (κ × α)) :
    get? other (put key value entries) = get? other entries := by
  induction entries with
  | nil => simp [put, get?, h]
  | cons e rest ih =>
    obtain ⟨k, old⟩ := e
    by_cases hk : k = key
    · subst hk; simp [put, get?, h]
    · simp [put, get?, hk, ih]

theorem keys_put (key : κ) (value : α) (entries : List (κ × α)) :
    keys (put key value entries) =
      if key ∈ keys entries then keys entries else keys entries ++ [key] := by
  induction entries with
  | nil => simp [put, keys]
  | cons e rest ih =>
    obtain ⟨k, old⟩ := e
    by_cases hk : k = key
    · subst hk; simp [put, keys]
    · have hk' : ¬ key = k := Ne.symm hk
      simp only [keys, List.map_cons, List.mem_cons] at ih ⊢
      simp only [put, hk, hk', if_false, List.map_cons, ih, false_or]
      split <;> simp [*]

end ViewBuilder.Entries
