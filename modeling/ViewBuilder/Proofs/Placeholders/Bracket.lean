import ViewBuilder.Proofs.Entries
import ViewBuilder.Proofs.Placeholders.Parts

/-!
# Placeholders in brackets

Replacing one form in brackets puts in the values of exactly the placeholders with its key. So
replacing all forms puts in all values at once, in whatever order the forms come, and what is left
has no placeholder with a value.
-/

namespace ViewBuilder.Placeholders

open Text

variable {key value : Text} {parts : List Part} {changes : List Change}

/-! ## One form -/

theorem bracket_append (key t : Text) :
    bracket key ++ t = '[' :: '[' :: '[' :: (key ++ ']' :: ']' :: ']' :: t) := by
  unfold bracket
  simp

theorem bracket_eq (key : Text) : bracket key = '[' :: '[' :: '[' :: (key ++ [']', ']', ']']) := by
  rw [← bracket_append, List.append_nil]

/-- Another placeholder stays. -/
theorem replaceAll_bracket_of_ne {other : Text} (hkey : Plain key) (hother : Plain other)
    (hne : other ≠ key) (value t : Text) :
    replaceAll (bracket key) value (bracket other ++ t) =
      bracket other ++ replaceAll (bracket key) value t := by
  have hwhole : ¬ key ++ [']', ']', ']'] <+: other ++ ']' :: ']' :: ']' :: t := by
    rw [prefix_around_iff hkey.2.1 hother.2.1]
    exact fun h => hne h.1.symm
  have hopening : ∀ w, ¬ '[' :: w <+: other ++ ']' :: ']' :: ']' :: t := fun _ =>
    not_cons_prefix_append hother.1 (by decide)
  have hrest : '[' ∉ other ++ [']', ']', ']'] := by
    simpa using hother.1
  have htext : other ++ ']' :: ']' :: ']' :: t = other ++ [']', ']', ']'] ++ t := by simp
  rw [bracket_append, bracket_append, bracket_eq,
    replaceAll_three_signs hwhole (hopening _) (hopening _), htext,
    replaceAll_append_of_not_mem hrest]
  simp

theorem replaceAll_bracket (hkey : Plain key) (hparts : ∀ part ∈ parts, part.Plain)
    (value : Text) : replaceAll (bracket key) value (write bracket parts) =
      write bracket (parts.map (Part.fill (only key value))) := by
  induction parts with
  | nil => exact replaceAll_nil (bracket_ne_nil key) value
  | cons part rest ih =>
    obtain ⟨hpart, hrest⟩ := List.forall_mem_cons.1 hparts
    rw [write_cons, List.map_cons, write_cons, ← ih hrest]
    cases part with
    | literal t => exact replaceAll_append_of_not_mem hpart.1 value _
    | token other =>
      rw [Part.text, Part.fill]
      by_cases hother : other = key
      · rw [hother, replaceAll_append_self (bracket_ne_nil key), only_self]
        rfl
      · rw [replaceAll_bracket_of_ne hkey hpart hother, only_of_ne hother]
        rfl

theorem hash_not_in_write (hparts : ∀ part ∈ parts, part.Plain) (key : Text) :
    ¬ hash key <:+: write bracket parts :=
  not_infix_write (c := '#') fun part hpart =>
    (hparts part hpart).not_mem_text (fun _ ht => ht.2.2) fun key hkey => by
      simpa [bracket] using hkey

/-! ## All forms -/

/-- The form of a plain key with a plain value. -/
def PlainForm (entry : Text × Text) : Prop :=
  ∃ key, (entry.1 = bracket key ∨ entry.1 = hash key) ∧ Plain key ∧ Plain entry.2

/-- The forms in a list put in the values that it has for the forms in brackets. -/
theorem replaceForms_write_bracket {forms : List (Text × Text)}
    (hforms : ∀ entry ∈ forms, PlainForm entry) (hparts : ∀ part ∈ parts, part.Plain) :
    replaceForms forms (write bracket parts) =
      write bracket (parts.map (Part.fill fun key => Table.get?In (bracket key) forms)) := by
  induction forms generalizing parts with
  | nil =>
    have hnone : (fun key => Table.get?In (bracket key) ([] : List (Text × Text))) =
      fun _ => none := rfl
    rw [hnone, Part.fill_none, List.map_id]
    rfl
  | cons entry rest ih =>
    obtain ⟨form, value⟩ := entry
    obtain ⟨⟨key, hform, hkey, hvalue⟩, hrest⟩ := List.forall_mem_cons.1 hforms
    rw [replaceForms_cons]
    obtain rfl | rfl := hform
    · have hplain : ∀ part ∈ parts.map (Part.fill (only key value)), part.Plain := by
        refine List.forall_mem_map.2 fun part hpart => (hparts part hpart).fill ?_
        intro other new hnew
        rw [only] at hnew
        split at hnew
        · exact Option.some.inj hnew ▸ hvalue
        · cases hnew
      have hlookup : (fun other => Table.get?In (bracket other) ((bracket key, value) :: rest)) =
          fun other => (only key value other).or (Table.get?In (bracket other) rest) := by
        funext other
        rw [Table.get?In]
        by_cases hother : other = key
        · rw [hother, if_pos rfl, only_self, Option.some_or]
        · rw [only_of_ne hother, if_neg (mt bracket_inj.1 (Ne.symm hother)), Option.none_or]
      rw [replaceAll_bracket hkey hparts, ih hrest hplain, List.map_map, hlookup]
      congr 2
      funext part
      exact Part.fill_fill _ _ part
    · have hlookup : (fun other => Table.get?In (bracket other) ((hash key, value) :: rest)) =
          fun other => Table.get?In (bracket other) rest :=
        funext fun other => if_neg (bracket_ne_hash other key).symm
      rw [replaceAll_eq_self (hash_not_in_write hparts key), ih hrest hparts, hlookup]

/-! ## Updating -/

def Change.Plain : Change → Prop
  | .set key value => Placeholders.Plain key ∧ Placeholders.Plain value
  | .remove key => Placeholders.Plain key

theorem plainForm_of_mem (hchanges : ∀ change ∈ changes, change.Plain) {entry : Text × Text}
    (hmem : entry ∈ (built changes).forms.entries) : PlainForm entry := by
  obtain ⟨key, hform, hvalue⟩ := (paired_built changes).exists_key hmem
  exact ⟨key, hform, hchanges _ (mem_of_get?_built hvalue)⟩

theorem update_write_bracket (hchanges : ∀ change ∈ changes, change.Plain)
    (hparts : ∀ part ∈ parts, part.Plain) :
    (built changes).update (write bracket parts) =
      write bracket (parts.map (Part.fill (built changes).get?)) := by
  rw [(paired_built changes).update_eq,
    replaceForms_write_bracket (fun _ => plainForm_of_mem hchanges) hparts]
  congr 3
  funext key
  exact (paired_built changes).get?_bracket key

/-- Updating a text with plain keys in brackets puts in all values at once and leaves the other
placeholders. Replacing the forms in any other order gives the same text, and updating it again
changes nothing. -/
theorem update_bracketed (hchanges : ∀ change ∈ changes, change.Plain)
    (hparts : ∀ part ∈ parts, part.Plain) :
    (built changes).update (write bracket parts) =
        write bracket (parts.map (Part.fill (built changes).get?)) ∧
      (∀ forms : List (Text × Text), forms.Perm (built changes).forms.entries →
        replaceForms forms (write bracket parts) =
          (built changes).update (write bracket parts)) ∧
      (built changes).update ((built changes).update (write bracket parts)) =
        (built changes).update (write bracket parts) := by
  have hupdate := update_write_bracket hchanges hparts
  refine ⟨hupdate, fun forms hperm => ?_, ?_⟩
  · have hnodup : (Entries.keys forms).Nodup :=
      (hperm.map Prod.fst).nodup_iff.2 (built changes).forms.nodup_keys
    rw [hupdate, replaceForms_write_bracket
      (fun entry hmem => plainForm_of_mem hchanges (hperm.mem_iff.1 hmem)) hparts]
    congr 3
    funext key
    rw [Table.get?In_eq_get?, Entries.get?_perm hnodup hperm, ← Table.get?In_eq_get?]
    exact (paired_built changes).get?_bracket key
  · have hfilled : ∀ part ∈ parts.map (Part.fill (built changes).get?), part.Plain := by
      refine List.forall_mem_map.2 fun part hpart => (hparts part hpart).fill fun key value h => ?_
      exact (hchanges _ (mem_of_get?_built h)).2
    rw [hupdate, update_write_bracket hchanges hfilled, List.map_map]
    congr 2
    funext part
    rw [Function.comp_apply, Part.fill_fill]
    simp only [Option.or_self]

/-- Two keys, each with the other one for its value, and a third one that is removed. -/
def swap : List Change := [.set "a" "b", .set "c" "d", .set "b" "a", .remove "c"]

def swapped : List Part := [.token "a", .token "b", .literal "c", .token "c"]

/-- The values are put in at once, and no value is replaced again. -/
theorem update_bracketed_swapped :
    (∀ change ∈ swap, change.Plain) ∧ (∀ part ∈ swapped, part.Plain) ∧
      write bracket swapped = "[[[a]]][[[b]]]c[[[c]]]".toList ∧
      (built swap).update (write bracket swapped) = "bac[[[c]]]".toList ∧
      replaceForms (built swap).forms.entries.reverse (write bracket swapped) =
        "bac[[[c]]]".toList ∧
      (built swap).update "bac[[[c]]]" = "bac[[[c]]]".toList := by
  have hchanges : ∀ change ∈ swap, change.Plain := by simp [swap, Change.Plain, Plain]
  have hparts : ∀ part ∈ swapped, part.Plain := by simp [swapped, Part.Plain, Plain]
  obtain ⟨hupdate, horder, hagain⟩ := update_bracketed hchanges hparts
  have htext : (built swap).update (write bracket swapped) = "bac[[[c]]]".toList := hupdate
  rw [htext] at hagain
  exact ⟨hchanges, hparts, rfl, htext, (horder _ (List.reverse_perm _)).trans htext, hagain⟩

end ViewBuilder.Placeholders
