import ViewBuilder.Proofs.Placeholders.Forms
import ViewBuilder.Proofs.Text.Bytes

/-!
# The values of the keys

Whatever is called, the placeholders are those of a table of values: each key in it has the value
that was set for it last, under both of its forms, and there are no other forms. An update replaces
them in the order of their bytes.
-/

namespace ViewBuilder.Placeholders

open Text Entries

/-! ## Calls -/

inductive Call where
  | set (key value : Text)
  | remove (key : Text)
  | setViewNames (item : ViewItem) (config : Config)

def perform (p : Placeholders) : Call → Placeholders
  | .set key value => p.set key value
  | .remove key => p.remove key
  | .setViewNames item config => p.setViewNames item config

/-- The placeholders that calls leave, starting with none. -/
def performAll (calls : List Call) : Placeholders := calls.foldl perform empty

def itemNames (item : ViewItem) : List (Text × Text) :=
  let single := item.singleCode
  let list := item.listCode
  [("view", single), ("views", list),
    ("VIEW", Identifier.ofLabel .upper single), ("VIEWS", Identifier.ofLabel .upper list),
    ("View", item.singleName.getD (titleCase single)),
    ("Views", item.listName.getD (titleCase list))]

def componentNames (component : Text) : List (Text × Text) :=
  [("component", component), ("Component", titleCase component),
    ("COMPONENT", Identifier.ofLabel .upper component)]

/-- The names of a view and of the component, in the order in which they are set. -/
def viewNames (item : ViewItem) (config : Config) : List (Text × Text) :=
  itemNames item ++ config.componentCode.elim [] componentNames

/-- The changes that a call makes one after the other. -/
def Call.changes : Call → List Change
  | .set key value => [.set key value]
  | .remove key => [.remove key]
  | .setViewNames item config => (viewNames item config).map fun (key, value) => .set key value

theorem perform_eq (p : Placeholders) (call : Call) :
    p.perform call = call.changes.foldl (fun p change => change.apply p) p := by
  cases call with
  | set key value => rfl
  | remove key => rfl
  | setViewNames item config =>
    rw [perform, setViewNames, Call.changes, viewNames]
    cases config.componentCode <;> rfl

theorem performAll_eq_built (calls : List Call) :
    performAll calls = built (calls.flatMap Call.changes) := by
  have hperform : perform =
      fun p call => call.changes.foldl (fun p change => change.apply p) p := by
    funext p call
    exact p.perform_eq call
  rw [performAll, built, List.foldl_flatMap, hperform]

/-! ## Values -/

def Change.entry : Change → Text × Option Text
  | .set key value => (key, some value)
  | .remove key => (key, none)

def Change.write (values : Table Text) : Change → Table Text
  | .set key value => values.insert key value
  | .remove key => values.erase key

/-- The values that changes leave, starting with none. -/
def written (changes : List Change) : Table Text := changes.foldl Change.write .empty

theorem keyed : Keyed (fun (values : Table Text) key => some (values.get? key)) Change.write
    Change.entry := by
  intro values change key
  cases change with
  | set other value =>
    dsimp only [Change.write, Change.entry]
    rw [Table.get?_insert]
    exact apply_ite some _ _ _
  | remove other =>
    dsimp only [Change.write, Change.entry]
    rw [Table.get?_erase, apply_ite some]
    simp only [eq_comm]

theorem get?_written (changes : List Change) (key : Text) :
    (written changes).get? key = (last? key (changes.map Change.entry)).join := by
  have hread := keyed.read_foldl .empty changes key
  cases hlast : last? key (changes.map Change.entry) with
  | none | some _ =>
    rw [hlast] at hread
    exact Option.some.inj hread

structure Refines (p : Placeholders) (values : Table Text) : Prop where
  paired : p.Paired
  get?_eq : ∀ key, p.get? key = values.get? key

variable {p : Placeholders} {values : Table Text}

theorem Refines.apply (h : p.Refines values) (change : Change) :
    (change.apply p).Refines (change.write values) := by
  refine ⟨h.paired.apply change, fun key => ?_⟩
  cases change with
  | set other value =>
    rw [Change.apply, Change.write, get?_of_set, Table.get?_insert, h.get?_eq]
    simp only [eq_comm]
  | remove other => rw [Change.apply, Change.write, get?_of_remove, Table.get?_erase, h.get?_eq]

theorem refines_built (changes : List Change) : (built changes).Refines (written changes) := by
  induction changes using List.reverseRecOn with
  | nil => exact ⟨paired_empty, fun _ => rfl⟩
  | append_singleton changes change ih =>
    rw [built_concat, written, List.foldl_concat]
    exact ih.apply change

/-! ## Forms -/

theorem Refines.mem_forms_iff (h : p.Refines values) {form value : Text} :
    (form, value) ∈ p.forms.entries ↔
      ∃ key, (form = bracket key ∨ form = hash key) ∧ values.get? key = some value := by
  constructor
  · intro hmem
    obtain ⟨key, hform, hvalue⟩ := h.paired.exists_key hmem
    exact ⟨key, hform, h.get?_eq key ▸ hvalue⟩
  · rintro ⟨key, rfl | rfl, hvalue⟩
    · rwa [Table.mem_entries_iff, h.paired.get?_bracket, h.get?_eq]
    · rwa [Table.mem_entries_iff, h.paired.get?_hash, h.get?_eq]

theorem Refines.mem_keys_forms_iff (h : p.Refines values) {form : Text} :
    form ∈ p.forms.keys ↔ ∃ key ∈ values.keys, form = bracket key ∨ form = hash key := by
  have hstored : (p.forms.get? form).isSome ↔ ∃ value, (form, value) ∈ p.forms.entries := by
    simp only [Option.isSome_iff_exists, Table.mem_entries_iff]
  simp only [Table.mem_keys_iff, hstored, h.mem_forms_iff, Option.isSome_iff_exists]
  constructor
  · rintro ⟨value, key, hform, hvalue⟩
    exact ⟨key, ⟨value, hvalue⟩, hform⟩
  · rintro ⟨key, ⟨value, hvalue⟩, hform⟩
    exact ⟨value, key, hform, hvalue⟩

/-- The forms of one kind differ from key to key, and no form is of both kinds. -/
theorem Refines.size_eq (h : p.Refines values) : p.size = 2 * values.size := by
  have hboth : (values.keys.map bracket ++ values.keys.map hash).Nodup := by
    rw [List.nodup_append']
    refine ⟨values.nodup_keys.map fun _ _ => bracket_inj.1,
      values.nodup_keys.map fun _ _ => hash_inj.1, ?_⟩
    intro form hbracket hhash
    obtain ⟨key, -, rfl⟩ := List.mem_map.1 hbracket
    obtain ⟨other, -, hsame⟩ := List.mem_map.1 hhash
    exact bracket_ne_hash key other hsame.symm
  have hmem : ∀ form, form ∈ p.forms.keys ↔
      form ∈ values.keys.map bracket ++ values.keys.map hash := by
    intro form
    rw [h.mem_keys_forms_iff, List.mem_append, List.mem_map, List.mem_map]
    simp only [eq_comm, and_or_left, exists_or]
  have hlength := ((List.perm_ext_iff_of_nodup p.forms.nodup_keys hboth).2 hmem).length_eq
  rw [List.length_append, List.length_map, List.length_map, ← Nat.two_mul, Table.keys, Table.keys,
    List.length_map, List.length_map] at hlength
  exact hlength

/-- Whatever is called, there is a table of values in which each key has the value that was set for
it last, unless it was removed after that, such that the value of a key is that of the table or the
empty text, the keys with a value are those of the table, and there are two forms for each of them.
An update replaces all these forms one after the other in the order of their bytes, each in the text
that the ones before it left; the tests on the way change nothing. -/
theorem performAll_refines (calls : List Call) :
    ∃ values : Table Text,
      (∀ key, values.get? key =
        (last? key ((calls.flatMap Call.changes).map Change.entry)).join) ∧
      (∀ key, (performAll calls).get key = (values.get? key).getD []) ∧
      (∀ key, (performAll calls).contains key = values.contains key) ∧
      (performAll calls).size = 2 * values.size ∧
      ∃ forms : List (Text × Text),
        forms.Pairwise (fun form later => bytes form.1 < bytes later.1) ∧
        forms.length = 2 * values.size ∧
        (∀ form value, (form, value) ∈ forms ↔
          ∃ key, (form = bracket key ∨ form = hash key) ∧ values.get? key = some value) ∧
        ∀ t, (performAll calls).update t = replaceForms forms t := by
  have h := refines_built (calls.flatMap Call.changes)
  rw [← performAll_eq_built] at h
  refine ⟨_, get?_written _, fun key => ?_, fun key => ?_, h.size_eq,
    (performAll calls).forms.entries, ?_, h.size_eq, fun _ _ => h.mem_forms_iff, h.paired.update_eq⟩
  · rw [get, h.get?_eq]
  · rw [contains, h.get?_eq, Table.contains]
  · exact (performAll calls).forms.sorted.imp bytes_lt_iff.2

/-- A form may hold another one. The bracket that it goes on with comes before the letter. -/
example : (performAll [.set "a" "1", .set "[[[a" "2", .set "a" "3"]).update
    "[[[[[[a]]] [[[a]]]" = "2 3".toList := by
  decide +kernel

end ViewBuilder.Placeholders
