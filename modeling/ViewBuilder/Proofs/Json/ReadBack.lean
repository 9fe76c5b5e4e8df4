import ViewBuilder.Json.Record
import ViewBuilder.Proofs.Entries

/-!
# Values that are read back

A value is written as a document that names it again. Only a value with a key twice would be lost
in part, and no document names such a value.
-/

namespace ViewBuilder

/-! ## Entries that are put again -/

namespace Entries

variable {κ α : Type} [DecidableEq κ] {key : κ} {value : α} {entries before : List (κ × α)}

theorem put_of_not_mem (h : key ∉ keys entries) :
    put key value entries = entries ++ [(key, value)] := by
  induction entries with
  | nil => rfl
  | cons entry rest ih =>
    rw [keys, List.map_cons, List.mem_cons, not_or] at h
    rw [put, if_neg (Ne.symm h.1), ih h.2, List.cons_append]

theorem foldl_put_of_nodup (h : (keys (before ++ entries)).Nodup) :
    entries.foldl (fun done entry => put entry.1 entry.2 done) before = before ++ entries := by
  induction entries generalizing before with
  | nil => rw [List.foldl_nil, List.append_nil]
  | cons entry rest ih =>
    have hnew : entry.1 ∉ keys before := by
      rw [keys, List.map_append, List.nodup_append] at h
      exact fun hmem => h.2.2 _ hmem _ List.mem_cons_self rfl
    rw [List.append_cons] at h
    rw [List.foldl_cons, put_of_not_mem hnew, ih h, ← List.append_cons]

/-- Entries without a key twice stay as they are, in their order. -/
theorem collapse_eq_self (h : (keys entries).Nodup) : collapse entries = entries :=
  foldl_put_of_nodup h

theorem filter_put (keep : κ → Bool) (key : κ) (value : α) (entries : List (κ × α)) :
    (put key value entries).filter (fun entry => keep entry.1) =
      if keep key then put key value (entries.filter fun entry => keep entry.1)
      else entries.filter fun entry => keep entry.1 := by
  induction entries with
  | nil => cases hkeep : keep key <;> simp [put, hkeep]
  | cons entry rest ih =>
    obtain ⟨other, old⟩ := entry
    rw [put]
    split
    · rename_i hkey
      subst hkey
      cases hkeep : keep other <;> simp [put, hkeep]
    · rename_i hkey
      cases hother : keep other
      · simp [hother, ih]
      · cases hkeep : keep key <;> simp [put, hkey, hother, hkeep, ih]

theorem foldl_put_filter (keep : κ → Bool) (entries before : List (κ × α)) :
    (entries.filter fun entry => keep entry.1).foldl
        (fun done entry => put entry.1 entry.2 done) (before.filter fun entry => keep entry.1) =
      (entries.foldl (fun done entry => put entry.1 entry.2 done) before).filter
        fun entry => keep entry.1 := by
  induction entries generalizing before with
  | nil => rfl
  | cons entry rest ih =>
    rw [List.foldl_cons, ← ih, filter_put, List.filter_cons]
    split
    · rw [List.foldl_cons]
    · rfl

/-- What comes twice under some of the keys does not change what is kept of the others. -/
theorem collapse_filter (keep : κ → Bool) (entries : List (κ × α)) :
    collapse (entries.filter fun entry => keep entry.1) =
      (collapse entries).filter fun entry => keep entry.1 :=
  foldl_put_filter keep entries []

end Entries

namespace Json

/-- A list of entries could have a key twice. No object in this value does, at any depth. -/
inductive WellFormed : Json → Prop where
  | null : WellFormed .null
  | bool (b : Bool) : WellFormed (.bool b)
  | number (n : Number) : WellFormed (.number n)
  | string (t : Text) : WellFormed (.string t)
  | array {items : List Json} (hitems : ∀ item ∈ items, item.WellFormed) : WellFormed (.array items)
  | object {entries : List (Text × Json)} (hkeys : (Entries.keys entries).Nodup)
      (hvalues : ∀ entry ∈ entries, entry.2.WellFormed) : WellFormed (.object entries)

theorem WellFormed.nodup {entries : List (Text × Json)} (h : (Json.object entries).WellFormed) :
    (Entries.keys entries).Nodup := by
  cases h with
  | object hkeys _ => exact hkeys

theorem WellFormed.values {entries : List (Text × Json)} (h : (Json.object entries).WellFormed) :
    ∀ entry ∈ entries, entry.2.WellFormed := by
  cases h with
  | object _ hvalues => exact hvalues

/-- A list is read back if all its items are. -/
theorem mapM_map_eq_some {α β : Type} {write : α → β} {read : β → Option α} {items : List α}
    (h : ∀ item ∈ items, read (write item) = some item) :
    (items.map write).mapM read = some items := by
  induction items with
  | nil => rfl
  | cons item rest ih =>
    obtain ⟨hitem, hrest⟩ := List.forall_mem_cons.1 h
    rw [List.map_cons, List.mapM_cons, hitem, ih hrest]
    rfl

/-! ## Fields that are written -/

theorem keys_optionalField_sublist (name : String) (value? : Option Json) :
    (Entries.keys (optionalField name value?)).Sublist [name.toList] := by
  cases value? with
  | none => exact List.nil_sublist _
  | some value => exact List.Sublist.refl _

theorem get?_optionalField (key : Text) (name : String) (value? : Option Json) :
    Entries.get? key (optionalField name value?) = if name.toList = key then value? else none := by
  cases value? with
  | none => exact (ite_self none).symm
  | some value => rfl

namespace Document

/-! ## From a value to a document and back -/

theorem ofItems_eq_map (items : List Json) : ofItems items = items.map ofJson := by
  induction items with
  | nil => rfl
  | cons item rest ih => rw [ofItems, ih, List.map_cons]

theorem keys_ofEntries (entries : List (Text × Json)) :
    Entries.keys (ofEntries entries) = Entries.keys entries := by
  induction entries with
  | nil => rfl
  | cons entry rest ih => exact congrArg (entry.1 :: ·) ih

theorem get?_ofEntries (key : Text) (entries : List (Text × Json)) :
    Entries.get? key (ofEntries entries) = (Entries.get? key entries).map ofJson := by
  induction entries with
  | nil => rfl
  | cons entry rest ih =>
    rw [ofEntries, Entries.get?, Entries.get?, ih]
    split <;> rfl

theorem filter_ofEntries (keep : Text → Bool) (entries : List (Text × Json)) :
    (ofEntries entries).filter (fun entry => keep entry.1) =
      ofEntries (entries.filter fun entry => keep entry.1) := by
  induction entries with
  | nil => rfl
  | cons entry rest ih =>
    rw [ofEntries, List.filter_cons, List.filter_cons, ih]
    split <;> rfl

theorem itemValues?_ofItems {items : List Json}
    (h : ∀ item ∈ items, (ofJson item).value? = some item) :
    itemValues? (ofItems items) = some items := by
  induction items with
  | nil => rfl
  | cons item rest ih =>
    obtain ⟨hitem, hrest⟩ := List.forall_mem_cons.1 h
    simp only [ofItems, itemValues?, hitem, ih hrest]

theorem entryValues?_ofEntries {entries : List (Text × Json)}
    (h : ∀ entry ∈ entries, (ofJson entry.2).value? = some entry.2) :
    entryValues? (ofEntries entries) = some entries := by
  induction entries with
  | nil => rfl
  | cons entry rest ih =>
    obtain ⟨hentry, hrest⟩ := List.forall_mem_cons.1 h
    simp only [ofEntries, entryValues?, hentry, ih hrest]

theorem value?_ofJson {value : Json} (h : value.WellFormed) :
    (ofJson value).value? = some value := by
  induction h with
  | null | bool | number | string => rfl
  | array _ ih => rw [ofJson, value?, itemValues?_ofItems ih, Option.map_some]
  | object hkeys _ ih =>
    rw [ofJson, value?, entryValues?_ofEntries ih, Option.map_some, Entries.collapse_eq_self hkeys]

/-! ## What a document names -/

theorem entryValues?_cons_eq_some {key : Text} {item : Document} {rest : List (Text × Document)}
    {values : List (Text × Json)} (h : entryValues? ((key, item) :: rest) = some values) :
    ∃ value others, value? item = some value ∧ entryValues? rest = some others ∧
      values = (key, value) :: others := by
  rw [entryValues?] at h
  split at h
  · rename_i value others hvalue hothers
    exact ⟨value, others, hvalue, hothers, (Option.some.inj h).symm⟩
  · cases h

theorem entryValues?_filter (keep : Text → Bool) {entries : List (Text × Document)}
    {values : List (Text × Json)} (h : entryValues? entries = some values) :
    entryValues? (entries.filter fun entry => keep entry.1) =
      some (values.filter fun entry => keep entry.1) := by
  induction entries generalizing values with
  | nil =>
    cases h
    rfl
  | cons entry rest ih =>
    obtain ⟨value, others, hvalue, hothers, rfl⟩ := entryValues?_cons_eq_some h
    rw [List.filter_cons, List.filter_cons]
    split
    · simp only [entryValues?, hvalue, ih hothers]
    · exact ih hothers

theorem keys_of_entryValues? {entries : List (Text × Document)} {values : List (Text × Json)}
    (h : entryValues? entries = some values) : Entries.keys values = Entries.keys entries := by
  induction entries generalizing values with
  | nil =>
    cases h
    rfl
  | cons entry rest ih =>
    obtain ⟨value, others, -, hothers, rfl⟩ := entryValues?_cons_eq_some h
    exact congrArg (entry.1 :: ·) (ih hothers)

theorem value?_eq_null_iff {document : Document} : document.value? = some .null ↔ document = .null := by
  cases document <;> simp [value?]

mutual

/-- A value that a document names has no key twice, whatever the document says. -/
theorem wellFormed_of_value? (document : Document) {value : Json}
    (h : document.value? = some value) : value.WellFormed := by
  cases document with
  | null | bool | number | string =>
    cases h
    constructor
  | array items =>
    rw [value?, Option.map_eq_some_iff] at h
    obtain ⟨values, hvalues, rfl⟩ := h
    exact .array (wellFormed_of_itemValues? items hvalues)
  | object entries =>
    rw [value?, Option.map_eq_some_iff] at h
    obtain ⟨values, hvalues, rfl⟩ := h
    exact .object (Entries.nodup_keys_collapse values) fun entry hmem =>
      wellFormed_of_entryValues? entries hvalues entry (Entries.mem_of_mem_collapse hmem)
  | unreadable => cases h

theorem wellFormed_of_itemValues? (items : List Document) {values : List Json}
    (h : itemValues? items = some values) : ∀ value ∈ values, value.WellFormed := by
  cases items with
  | nil =>
    cases h
    exact nofun
  | cons item rest =>
    rw [itemValues?] at h
    split at h
    · rename_i value others hvalue hothers
      cases h
      exact List.forall_mem_cons.2
        ⟨wellFormed_of_value? item hvalue, wellFormed_of_itemValues? rest hothers⟩
    · cases h

theorem wellFormed_of_entryValues? (entries : List (Text × Document))
    {values : List (Text × Json)} (h : entryValues? entries = some values) :
    ∀ entry ∈ values, entry.2.WellFormed := by
  cases entries with
  | nil =>
    cases h
    exact nofun
  | cons entry rest =>
    obtain ⟨value, others, hvalue, hothers, rfl⟩ := entryValues?_cons_eq_some h
    exact List.forall_mem_cons.2
      ⟨wellFormed_of_value? entry.2 hvalue, wellFormed_of_entryValues? rest hothers⟩

end

/-! ## Values of one kind -/

@[simp] theorem text?_ofJson_string (t : Text) : text? (ofJson (.string t)) = some t := rfl

@[simp] theorem nat?_ofJson_nat (n : Nat) : nat? (ofJson (.nat n)) = some n := by
  simp [nat, ofJson, nat?]

@[simp] theorem list?_ofJson_texts (ts : List Text) :
    list? text? (ofJson (.texts ts)) = some ts := by
  change (ofItems (ts.map .string)).mapM text? = some ts
  rw [ofItems_eq_map, List.map_map]
  exact mapM_map_eq_some fun t _ => text?_ofJson_string t

theorem option?_eq_some_of_ne_null {α : Type} {read : Document → Option α} {document : Document}
    {a : α} (hnull : document ≠ .null) (hread : read document = some a) :
    option? read document = some (some a) := by
  unfold option?
  split
  · exact absurd rfl hnull
  · rw [hread, Option.map_some]

theorem ofJson_eq_null_iff {value : Json} : ofJson value = .null ↔ value = .null := by
  cases value <;> simp [ofJson]

/-- A value that may be missing is read back from null or from what is written for it. -/
theorem option?_ofOption {α : Type} {read : Document → Option α} {write : α → Json}
    {a? : Option α} (h : ∀ a ∈ a?, write a ≠ .null ∧ read (ofJson (write a)) = some a) :
    option? read (ofJson (ofOption write a?)) = some a? := by
  cases a? with
  | none => rfl
  | some a =>
    obtain ⟨hnull, hread⟩ := h a rfl
    exact option?_eq_some_of_ne_null (mt ofJson_eq_null_iff.1 hnull) hread

/-! ## Fields that are read -/

theorem eq_object_of_objectFields? {known : List Text} {document : Document} {fields : Fields}
    (h : objectFields? known document = some fields) : document = .object fields := by
  unfold objectFields? at h
  split at h
  · split at h
    · rw [Option.some.inj h]
    · cases h
  · cases h

/-- What is written without a key twice is an object of which the fields can be read. -/
theorem objectFields?_ofEntries (known : List Text) {entries : List (Text × Json)}
    (h : (Entries.keys entries).Nodup) :
    objectFields? known (ofJson (.object entries)) = some (ofEntries entries) := by
  have honce (name : Text) : (ofEntries entries).countP (fun entry => entry.1 = name) ≤ 1 := by
    have hcount := List.nodup_iff_count_le_one.1 (keys_ofEntries entries ▸ h) name
    rw [Entries.keys, List.count, List.countP_map] at hcount
    simpa only [Function.comp_def, beq_eq_decide] using hcount
  rw [ofJson, objectFields?, if_pos]
  simp [honce]

namespace Fields

variable {α : Type} {name : Text} {entries : List (Text × Json)} {value : Json}
  {read : Document → Option α} {default a : α}

theorem required?_ofEntries (hget : Entries.get? name entries = some value)
    (hread : read (ofJson value) = some a) : required? (ofEntries entries) name read = some a := by
  rw [required?, get?_ofEntries, hget, Option.map_some, Option.bind_some, hread]

theorem withDefault?_ofEntries_of_missing (hget : Entries.get? name entries = none) :
    withDefault? (ofEntries entries) name default read = some default := by
  rw [withDefault?, get?_ofEntries, hget, Option.map_none]

theorem withDefault?_ofEntries_of_written (hget : Entries.get? name entries = some value)
    (hread : read (ofJson value) = some a) :
    withDefault? (ofEntries entries) name default read = some a := by
  rw [withDefault?, get?_ofEntries, hget, Option.map_some]
  exact hread

/-- A field is read back if it is left out for its default only. -/
theorem withDefault?_ofEntries {missing : Prop} [Decidable missing]
    (hget : Entries.get? name entries = if missing then none else some value)
    (hmissing : missing → default = a) (hread : read (ofJson value) = some a) :
    withDefault? (ofEntries entries) name default read = some a := by
  split at hget
  · rename_i hleft
    rw [withDefault?_ofEntries_of_missing hget, hmissing hleft]
  · exact withDefault?_ofEntries_of_written hget hread

/-- A field that may be missing is read back if what is written for it is not null. -/
theorem optional?_ofEntries {a? : Option α} {write : α → Json}
    (hget : Entries.get? name entries = a?.map write)
    (hwrite : ∀ a ∈ a?, write a ≠ .null ∧ read (ofJson (write a)) = some a) :
    optional? (ofEntries entries) name read = some a? := by
  cases a? with
  | none => exact withDefault?_ofEntries_of_missing hget
  | some a => exact withDefault?_ofEntries_of_written hget (option?_ofOption hwrite)

theorem optional?_ofEntries_text {t? : Option Text}
    (hget : Entries.get? name entries = t?.map .string) :
    optional? (ofEntries entries) name text? = some t? :=
  optional?_ofEntries hget fun t _ => ⟨nofun, text?_ofJson_string t⟩

/-- A field that is read as a value is not null. -/
theorem exists_of_optional?_eq_some {fields : Fields} (h : optional? fields name read = some (some a)) :
    ∃ document, document ≠ .null ∧ read document = some a := by
  unfold optional? withDefault? at h
  split at h
  · cases h
  · rename_i document _
    refine ⟨document, ?_, ?_⟩
    · rintro rfl
      cases h
    · unfold option? at h
      split at h
      · cases h
      · obtain ⟨read, hread, hsame⟩ := Option.map_eq_some_iff.1 h
        rw [hread, Option.some.inj hsame]

end Fields

end Document

end Json

end ViewBuilder
