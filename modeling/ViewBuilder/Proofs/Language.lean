import ViewBuilder.Proofs.Table

/-!
# Which text a key has

The strings that are meant for a side are gathered scope after scope. Of several texts that were set
for a key in one scope the last one stays, and a text in the scope of the side itself comes before a
shared one, in whatever order they were set.
-/

namespace ViewBuilder

/-- The scope of the strings that are meant for one side only. -/
def BuildTarget.scope : BuildTarget → Scope
  | .admin => .admin
  | .site => .site

namespace LanguageTable

open Entries

variable {scope : Scope} {target : BuildTarget} {strings : Table Text}

/-! ## One side -/

theorem foldl_addString_own (hscope : scope ≠ .both) (entries : List (Text × Text)) :
    entries.foldl (addString scope) strings = strings.insertAll entries := by
  have hadd : addString scope = fun strings entry => strings.insert entry.1 entry.2 := by
    funext strings entry
    simp [addString, hscope]
  rw [hadd, Table.insertAll]

theorem addString_both (strings : Table Text) (entry : Text × Text) :
    addString .both strings entry =
      if strings.contains entry.1 then strings else strings.insert entry.1 entry.2 := by
  rw [addString, decide_eq_true rfl, Bool.true_and]

/-- A shared string is only taken for a key that has none yet. -/
theorem get?_foldl_addString_both (strings : Table Text) (entries : List (Text × Text))
    (key : Text) :
    (entries.foldl (addString .both) strings).get? key =
      (strings.get? key).or (Entries.get? key entries) := by
  induction entries generalizing strings with
  | nil => rw [List.foldl_nil, Entries.get?, Option.or_none]
  | cons entry rest ih =>
    rw [List.foldl_cons, ih, addString_both, Table.get?_insert_of_missing, Option.or_assoc,
      Entries.get?]
    congr 1
    split <;> rfl

theorem get?_addScope (table : LanguageTable) (target : BuildTarget) (strings : Table Text)
    (scope : Scope) (key : Text) :
    (table.addScope target strings scope).get? key =
      if scope.includes target then
        if scope = .both then (strings.get? key).or (table.get? scope key)
        else (table.get? scope key).or (strings.get? key)
      else strings.get? key := by
  have hentries : Entries.get? key (table.strings scope).entries = table.get? scope key :=
    (Table.get?In_eq_get? key _).symm
  unfold addScope
  split
  · split
    · rename_i hscope
      subst hscope
      rw [get?_foldl_addString_both, hentries]
    · rename_i hscope
      rw [foldl_addString_own hscope, Table.get?_insertAll, Table.lastIn?_eq_last?,
        last?_eq_get? (table.strings scope).nodup_keys, hentries]
  · rfl

theorem get?_stringsFor (table : LanguageTable) (target : BuildTarget) (key : Text) :
    (table.stringsFor target).get? key =
      (table.get? target.scope key).or (table.get? .both key) := by
  have hempty : (Table.empty : Table Text).get? key = none := rfl
  unfold stringsFor
  simp only [List.foldl_cons, List.foldl_nil, get?_addScope]
  cases target <;> simp [Scope.includes, BuildTarget.scope, hempty]

/-! ## Strings that are set -/

/-- A string as it is set. -/
structure Setting where
  scope : Scope
  key : Text
  text : Text

def Setting.entry (setting : Setting) : (Scope × Text) × Text :=
  ((setting.scope, setting.key), Text.trim setting.text)

def setOne (table : LanguageTable) (setting : Setting) : LanguageTable :=
  table.set setting.scope setting.key setting.text

/-- The table that settings leave, starting with none. -/
def built (settings : List Setting) : LanguageTable := settings.foldl setOne empty

theorem strings_set (table : LanguageTable) (scope other : Scope) (key text : Text) :
    (table.set scope key text).strings other =
      if scope = other then (table.strings scope).insert key (Text.trim text)
      else table.strings other := by
  cases scope <;> cases other <;> rfl

theorem keyed : Keyed (fun table (place : Scope × Text) => table.get? place.1 place.2) setOne
    Setting.entry := by
  rintro table ⟨scope, key, text⟩ ⟨other, otherKey⟩
  unfold get? setOne Setting.entry
  dsimp only
  rw [strings_set]
  by_cases hscope : scope = other
  · subst hscope
    rw [if_pos rfl, Table.get?_insert]
    simp
  · simp [hscope]

theorem size_setOne (table : LanguageTable) (setting : Setting) :
    (table.setOne setting).size =
      if (table.get? setting.scope setting.key).isSome then table.size else table.size + 1 := by
  obtain ⟨scope, key, text⟩ := setting
  have hinsert := (table.strings scope).size_insert key (Text.trim text)
  dsimp only [setOne]
  split
  · rename_i hknown
    have hsame := hinsert.trans (if_pos hknown)
    cases scope <;>
    · simp only [set, strings, withStrings, size] at hsame ⊢
      omega
  · rename_i hnew
    have hmore := hinsert.trans (if_neg hnew)
    cases scope <;>
    · simp only [set, strings, withStrings, size] at hmore ⊢
      omega

theorem get?_built (settings : List Setting) (scope : Scope) (key : Text) :
    (built settings).get? scope key = last? (scope, key) (settings.map Setting.entry) := by
  have hread := keyed.read_foldl empty settings (scope, key)
  have hempty : empty.get? scope key = none := by cases scope <;> rfl
  rwa [hempty, Option.or_none] at hread

theorem size_built (settings : List Setting) :
    (built settings).size = (keys (settings.map Setting.entry)).dedup.length :=
  keyed.count_foldl size_setOne (fun place => by cases place.1 <;> rfl) rfl settings

/-- For a side, a key has the text, trimmed, that was set last in the scope of the side, else the
one that was set last for both sides, and else none. What is set for the other side leaves its
strings as they are, and there are as many strings in all as there are scopes and keys together
that were set. -/
theorem stringsFor_built (settings : List Setting) (target : BuildTarget) :
    (∀ key, ((built settings).stringsFor target).get? key =
      (last? (target.scope, key) (settings.map Setting.entry)).or
        (last? (.both, key) (settings.map Setting.entry))) ∧
    (built (settings.filter fun setting => setting.scope ≠ target.other.scope)).stringsFor target =
      (built settings).stringsFor target ∧
    (built settings).size =
      (settings.map fun setting => (setting.scope, setting.key)).dedup.length := by
  have hget : ∀ settings key, ((built settings).stringsFor target).get? key =
      (last? (target.scope, key) (settings.map Setting.entry)).or
        (last? (.both, key) (settings.map Setting.entry)) := by
    intro settings key
    rw [get?_stringsFor, get?_built, get?_built]
  refine ⟨hget settings, Table.ext_get? fun key => ?_, ?_⟩
  · have hentries : (settings.filter fun setting => setting.scope ≠ target.other.scope).map
        Setting.entry =
      (settings.map Setting.entry).filter fun entry => entry.1.1 ≠ target.other.scope := by
      rw [List.filter_map]
      rfl
    have hown : target.scope ≠ target.other.scope := by cases target <;> decide
    have hboth : Scope.both ≠ target.other.scope := by cases target <;> decide
    rw [hget, hget, hentries, last?_filter fun _ => decide_eq_true hown,
      last?_filter fun _ => decide_eq_true hboth]
  · rw [size_built, keys, List.map_map]
    rfl

/-- A shared text that is set later does not replace the one of the side. -/
example : ((built [⟨.admin, "K", " own "⟩, ⟨.both, "K", "shared"⟩]).stringsFor .admin).get? "K" =
    some "own" := by
  decide +kernel

end LanguageTable

end ViewBuilder
