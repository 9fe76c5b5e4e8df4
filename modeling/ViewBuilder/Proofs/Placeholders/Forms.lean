import ViewBuilder.Proofs.Table
import ViewBuilder.Proofs.Text.Replace

/-!
# The forms of a key

Setting and removing keys keeps the two forms of each key together, with one value. So updating a
text replaces the forms one after the other, and the test for delimiters changes nothing: a text
without them holds no form.
-/

namespace ViewBuilder.Placeholders

open Text

/-! ## Two forms for each key -/

theorem bracket_inj {key other : Text} : bracket key = bracket other ↔ key = other := by
  unfold bracket
  rw [List.append_left_inj, List.append_right_inj]

theorem hash_inj {key other : Text} : hash key = hash other ↔ key = other := by
  unfold hash
  rw [List.append_left_inj, List.append_right_inj]

theorem bracket_ne_hash (key other : Text) : bracket key ≠ hash other := by
  intro h
  have hfirst : '[' = '#' := (List.cons.inj h).1
  exact absurd hfirst (by decide)

theorem bracket_ne_nil (key : Text) : bracket key ≠ [] := List.cons_ne_nil _ _

theorem hash_ne_nil (key : Text) : hash key ≠ [] := List.cons_ne_nil _ _

theorem get?_of_set (p : Placeholders) (key other value : Text) :
    (p.set key value).get? other = if other = key then some value else p.get? other := by
  rw [get?, set]
  split
  · rename_i hkey
    rw [hkey, Table.get?_insert_self, Option.some_or]
  · rename_i hkey
    have hbracket : bracket key ≠ bracket other := fun h => hkey (bracket_inj.1 h).symm
    have hhash : hash key ≠ hash other := fun h => hkey (hash_inj.1 h).symm
    rw [Table.get?_insert_of_ne _ hbracket,
      Table.get?_insert_of_ne _ (bracket_ne_hash other key).symm,
      Table.get?_insert_of_ne _ (bracket_ne_hash key other), Table.get?_insert_of_ne _ hhash, get?]

theorem get?_of_remove (p : Placeholders) (key other : Text) :
    (p.remove key).get? other = if other = key then none else p.get? other := by
  rw [get?, remove]
  simp only [Table.get?_erase, bracket_inj, hash_inj, bracket_ne_hash, (bracket_ne_hash _ _).symm,
    if_false]
  split
  · rfl
  · rw [get?]

theorem get?_eq_some_get {p : Placeholders} {key : Text} (h : p.contains key) :
    p.get? key = some (p.get key) := by
  obtain ⟨value, hvalue⟩ := Option.isSome_iff_exists.1 h
  rw [get, hvalue, Option.getD_some]

/-! ## Changes -/

inductive Change where
  | set (key value : Text)
  | remove (key : Text)

def Change.key : Change → Text
  | .set key _ | .remove key => key

def Change.apply : Change → Placeholders → Placeholders
  | .set key value, p => p.set key value
  | .remove key, p => p.remove key

/-- The placeholders that changes leave, starting with none. -/
def built (changes : List Change) : Placeholders :=
  changes.foldl (fun p change => change.apply p) empty

theorem built_concat (changes : List Change) (change : Change) :
    built (changes ++ [change]) = change.apply (built changes) :=
  List.foldl_concat ..

/-- The value of a key was set for it. -/
theorem mem_of_get?_built {changes : List Change} {key value : Text}
    (h : (built changes).get? key = some value) : .set key value ∈ changes := by
  induction changes using List.reverseRecOn with
  | nil => cases h
  | append_singleton changes change ih =>
    rw [built_concat] at h
    rw [List.mem_append, List.mem_singleton]
    cases change with
    | set other new =>
      rw [Change.apply, get?_of_set] at h
      split at h
      · rename_i hkey
        rw [hkey, Option.some.inj h]
        exact .inr rfl
      · exact .inl (ih h)
    | remove other =>
      rw [Change.apply, get?_of_remove] at h
      split at h
      · cases h
      · exact .inl (ih h)

/-- Both forms of a key have the same value, and there are no other forms. -/
structure Paired (p : Placeholders) : Prop where
  same : ∀ key, p.forms.get? (hash key) = p.forms.get? (bracket key)
  isForm : ∀ entry ∈ p.forms.entries, ∃ key, entry.1 = bracket key ∨ entry.1 = hash key

variable {p : Placeholders}

theorem paired_empty : empty.Paired := ⟨fun _ => rfl, nofun⟩

theorem Paired.apply (h : p.Paired) (change : Change) : (change.apply p).Paired := by
  cases change with
  | set key value =>
    refine ⟨fun other => ?_, fun entry hmem => ?_⟩
    · rw [Change.apply, set, Table.get?_insert_of_ne _ (bracket_ne_hash key other)]
      by_cases hkey : key = other
      · rw [hkey, Table.get?_insert_self, Table.get?_insert_self]
      · rw [Table.get?_insert_of_ne _ (mt hash_inj.1 hkey),
          Table.get?_insert_of_ne _ (mt bracket_inj.1 hkey),
          Table.get?_insert_of_ne _ (bracket_ne_hash other key).symm, h.same]
    · rcases Table.mem_insertIn hmem with rfl | hmem
      · exact ⟨key, .inl rfl⟩
      · rcases Table.mem_insertIn hmem with rfl | hmem
        · exact ⟨key, .inr rfl⟩
        · exact h.isForm entry hmem
  | remove key =>
    refine ⟨fun other => ?_, fun entry hmem => ?_⟩
    · simp only [Change.apply, remove, Table.get?_erase, bracket_inj, hash_inj, bracket_ne_hash,
        (bracket_ne_hash _ _).symm, if_false, h.same]
    · exact h.isForm entry (List.mem_of_mem_filter (List.mem_of_mem_filter hmem))

theorem paired_built (changes : List Change) : (built changes).Paired := by
  induction changes using List.reverseRecOn with
  | nil => exact paired_empty
  | append_singleton changes change ih =>
    rw [built_concat]
    exact ih.apply change

theorem Paired.get?_bracket (h : p.Paired) (key : Text) :
    p.forms.get? (bracket key) = p.get? key := by
  rw [get?, h.same, Option.or_self]

theorem Paired.get?_hash (h : p.Paired) (key : Text) : p.forms.get? (hash key) = p.get? key := by
  rw [h.same, h.get?_bracket]

theorem Paired.exists_key (h : p.Paired) {form value : Text}
    (hmem : (form, value) ∈ p.forms.entries) :
    ∃ key, (form = bracket key ∨ form = hash key) ∧ p.get? key = some value := by
  obtain ⟨key, hform⟩ := h.isForm _ hmem
  refine ⟨key, hform, ?_⟩
  have hget := Table.mem_entries_iff.1 hmem
  obtain rfl | rfl := hform
  · rwa [h.get?_bracket] at hget
  · rwa [h.get?_hash] at hget

/-! ## Form after form -/

theorem replaceForm_eq (t form value : Text) :
    replaceForm t form value = replaceAll form value t := by
  rw [replaceForm]
  split
  · rfl
  · rename_i hform
    rw [replaceAll_eq_self (mt contains_iff.2 hform)]

/-- Replaces forms in their order, each in the text that the ones before it left. -/
def replaceForms (forms : List (Text × Text)) (t : Text) : Text :=
  forms.foldl (fun t entry => replaceAll entry.1 entry.2 t) t

theorem replaceForms_cons (form value : Text) (rest : List (Text × Text)) (t : Text) :
    replaceForms ((form, value) :: rest) t = replaceForms rest (replaceAll form value t) := rfl

theorem replaceForms_eq_self {forms : List (Text × Text)} {t : Text}
    (h : ∀ entry ∈ forms, ¬ entry.1 <:+: t) : replaceForms forms t = t := by
  induction forms with
  | nil => rfl
  | cons entry rest ih =>
    obtain ⟨hentry, hrest⟩ := List.forall_mem_cons.1 h
    rw [replaceForms_cons, replaceAll_eq_self hentry, ih hrest]

/-- The tests on the way save time and change nothing. -/
theorem Paired.update_eq (h : p.Paired) (t : Text) :
    p.update t = replaceForms p.forms.entries t := by
  rw [update, substitute]
  split
  · unfold replaceForms
    congr 1
    funext t entry
    exact replaceForm_eq t entry.1 entry.2
  · rename_i hdelimiters
    rw [Bool.or_eq_true, contains_iff, contains_iff, not_or] at hdelimiters
    rw [replaceForms_eq_self]
    intro entry hmem hinfix
    obtain ⟨key, hform | hform⟩ := h.isForm entry hmem
    · rw [hform] at hinfix
      refine hdelimiters.1 (List.IsInfix.trans ?_ hinfix)
      exact ((List.prefix_append _ key).trans (List.prefix_append _ _)).isInfix
    · rw [hform] at hinfix
      refine hdelimiters.2 (List.IsInfix.trans ?_ hinfix)
      exact ((List.prefix_append _ key).trans (List.prefix_append _ _)).isInfix

end ViewBuilder.Placeholders
