import ViewBuilder.Proofs.Registry.Distinct

/-!
# What removing a path changes

Removing a path takes one entry out of one object, whose last entry moves into its place, and tells
the value it had. Everything that does not lead through the path reads as before, the objects on
the way keep their keys, and the one that had the entry stays even if it is empty then. Where
nothing is stored, nothing is removed.
-/

namespace ViewBuilder

/-! ## Entries -/

namespace Entries

variable {κ α : Type}

/-- One entry is taken out, and the last one, unless it is that one, moves into its place. -/
inductive Taken (key : κ) (value : α) : List (κ × α) → List (κ × α) → Prop where
  | last (front : List (κ × α)) : Taken key value (front ++ [(key, value)]) front
  | inner (front middle : List (κ × α)) (final : κ × α) :
      Taken key value (front ++ (key, value) :: (middle ++ [final])) (front ++ final :: middle)

variable {key other : κ} {value : α} {before after : List (κ × α)}

theorem Taken.cons (entry : κ × α) (h : Taken key value before after) :
    Taken key value (entry :: before) (entry :: after) := by
  cases h with
  | last => exact .last (entry :: after)
  | inner front middle final => exact .inner (entry :: front) middle final

theorem Taken.perm (h : Taken key value before after) : before.Perm ((key, value) :: after) := by
  cases h with
  | last => exact List.perm_append_singleton _ _
  | inner front middle final =>
    refine List.perm_middle.trans (.cons _ ?_)
    exact (List.perm_append_singleton final middle).append_left front

theorem Taken.nodup_cons (h : Taken key value before after) (hb : (keys before).Nodup) :
    key ∉ keys after ∧ (keys after).Nodup :=
  List.nodup_cons.1 ((h.perm.map Prod.fst).nodup_iff.1 hb)

variable [DecidableEq κ]

theorem taken_erase (h : get? key before = some value) :
    Taken key value before (erase key before) := by
  induction before with
  | nil => cases h
  | cons entry rest ih =>
    obtain ⟨first, old⟩ := entry
    rw [get?] at h
    rw [erase]
    split at h
    · rename_i hkey
      obtain rfl := hkey
      obtain rfl := Option.some.inj h
      rw [if_pos rfl]
      rcases List.eq_nil_or_concat' rest with rfl | ⟨middle, final, rfl⟩
      · exact .last []
      · simpa [fillGap] using Taken.inner [] middle final
    · rename_i hkey
      rw [if_neg hkey]
      exact (ih h).cons (first, old)

theorem Taken.get?_self (h : Taken key value before after) (hb : (keys before).Nodup) :
    get? key after = none :=
  get?_eq_none_iff.2 (h.nodup_cons hb).1

theorem Taken.get?_of_ne (h : Taken key value before after) (hb : (keys before).Nodup)
    (hne : other ≠ key) : get? other after = get? other before := by
  rw [get?_perm hb h.perm, get?, if_neg (Ne.symm hne)]

theorem withKey_of_mem {known : List κ} (h : key ∈ known) : withKey known key = known := by
  rw [withKey, if_pos h]

end Entries

namespace Json

/-! ## Taking out -/

variable {entries inner : List (Text × Json)} {old : Json}

theorem takeAt?_cons (segment : Text) {rest : List Text} (h : rest ≠ [])
    (entries : List (Text × Json)) : takeAt? (segment :: rest) entries =
      (Entries.get? segment entries).bind fun child =>
        child.entries?.bind fun inner =>
          (takeAt? rest inner).map fun (old, inner) =>
            (old, Entries.put segment (.object inner) entries) := by
  cases rest with
  | nil => exact absurd rfl h
  | cons next more => rfl

theorem takeAt?_eq_none {path : List Text} (hne : path ≠ [])
    (h : at? path (.object entries) = none) : takeAt? path entries = none := by
  induction path generalizing entries with
  | nil => exact absurd rfl hne
  | cons segment rest ih =>
    rw [at?_object_cons] at h
    by_cases hrest : rest = []
    · subst hrest
      rw [takeAt?, Option.map_eq_none_iff]
      cases hget : Entries.get? segment entries with
      | none => rfl
      | some child =>
        rw [hget] at h
        cases h
    · rw [takeAt?_cons segment hrest]
      cases hget : Entries.get? segment entries with
      | none => rfl
      | some child =>
        rw [hget] at h
        cases child with
        | object inner =>
          rw [Option.bind_some, entries?_object, Option.bind_some, ih hrest h, Option.map_none]
        | null | bool | number | string | array => rfl

/-- Taking an entry out of an object is putting the object without it in its place. -/
theorem takeAt?_concat {parent : List Text} {last : Text}
    (hparent : at? parent (.object entries) = some (.object inner))
    (hold : Entries.get? last inner = some old) :
    ∃ root, takeAt? (parent ++ [last]) entries = some (old, root) ∧
      putAt (.object (Entries.erase last inner)) parent (.object entries) = .object root := by
  induction parent generalizing entries with
  | nil =>
    cases hparent
    exact ⟨_, by rw [List.nil_append, takeAt?, hold, Option.map_some], rfl⟩
  | cons segment rest ih =>
    rw [at?_object_cons, Option.bind_eq_some_iff] at hparent
    obtain ⟨child, hchild, hrest⟩ := hparent
    obtain ⟨childEntries, rfl⟩ : ∃ childEntries, child = .object childEntries := by
      cases child with
      | object childEntries => exact ⟨childEntries, rfl⟩
      | null | bool | number | string | array => cases rest <;> cases hrest
    obtain ⟨root, htake, hput⟩ := ih hrest
    refine ⟨Entries.put segment (.object root) entries, ?_, ?_⟩
    · rw [List.cons_append, takeAt?_cons segment (by simp), hchild, Option.bind_some,
        entries?_object, Option.bind_some, htake, Option.map_some]
    · rw [putAt, entries?_object, Option.getD_some, hchild, Option.getD_some, hput]

end Json

/-! ## In the registry -/

namespace Registry

variable {registry : Registry} {path other : RegistryPath} {parent : List Text} {last : Text}
  {old : Json}

theorem remove_of_get?_eq_none (h : registry.get? path = none) :
    registry.remove path = (none, registry) := by
  rw [remove, Json.takeAt?_eq_none path.ne_nil h]

/-- The object that a stored value is an entry of, and the registry with that object changed. -/
theorem exists_remove (hpath : path.segments = parent ++ [last])
    (h : registry.get? path = some old) :
    ∃ before, registry.toJson.at? parent = some (.object before) ∧
      Entries.get? last before = some old ∧ (registry.remove path).1 = some old ∧
      (registry.remove path).2.toJson =
        Json.putAt (.object (Entries.erase last before)) parent registry.toJson := by
  rw [get?, hpath, Json.at?_append, Option.bind_eq_some_iff] at h
  obtain ⟨node, hnode, hlast⟩ := h
  cases node with
  | object before =>
    rw [Json.at?_object_cons, Option.bind_eq_some_iff] at hlast
    obtain ⟨found, hfound, hold⟩ := hlast
    obtain rfl : found = old := Option.some.inj hold
    obtain ⟨root, htake, hput⟩ := Json.takeAt?_concat hnode hfound
    refine ⟨before, hnode, hfound, ?_, ?_⟩
    · rw [remove, hpath, htake]
    · rw [remove, hpath, htake]
      exact hput.symm
  | null | bool | number | string | array => cases hlast

theorem DistinctKeys.remove (h : registry.DistinctKeys) (path : RegistryPath) :
    (registry.remove path).2.DistinctKeys := by
  cases hget : registry.get? path with
  | none => rwa [remove_of_get?_eq_none hget]
  | some old =>
    obtain ⟨parent, last, hpath⟩ := (List.eq_nil_or_concat' path.segments).resolve_left path.ne_nil
    obtain ⟨before, hbefore, hold, -, hafter⟩ := exists_remove hpath hget
    obtain ⟨hnodup, hvalues⟩ := Json.distinctKeys_object_iff.1 (Json.DistinctKeys.at? h hbefore)
    have htaken := Entries.taken_erase hold
    rw [DistinctKeys, hafter]
    refine Json.DistinctKeys.putAt ?_ parent h
    refine Json.distinctKeys_object_iff.2 ⟨(htaken.nodup_cons hnodup).2, fun entry hmem => ?_⟩
    exact hvalues entry (htaken.perm.mem_iff.2 (List.mem_cons_of_mem _ hmem))

theorem get?_remove_of_diverges (h : registry.DistinctKeys) (hdiverges : path.Diverges other) :
    (registry.remove path).2.get? other = registry.get? other := by
  cases hget : registry.get? path with
  | none => rw [remove_of_get?_eq_none hget]
  | some old =>
    obtain ⟨parent, last, hpath⟩ := (List.eq_nil_or_concat' path.segments).resolve_left path.ne_nil
    obtain ⟨before, hbefore, hold, -, hafter⟩ := exists_remove hpath hget
    obtain ⟨hdown, hup⟩ := hdiverges
    rw [hpath] at hdown hup
    rw [get?, hafter, get?]
    by_cases hparent : parent <+: other.segments
    · -- The other path leads through the same object, and there to another entry.
      obtain ⟨behind, hbehind⟩ := hparent
      rw [← hbehind] at hdown hup
      cases behind with
      | nil => exact absurd (by simp) hup
      | cons next rest =>
        have hne : next ≠ last := by
          rintro rfl
          exact hdown (by simp)
        have hnodup : (Entries.keys before).Nodup := h parent before hbefore
        rw [← hbehind, Json.at?_putAt_append, Json.at?_append, hbefore, Option.bind_some,
          Json.at?_object_cons, Json.at?_object_cons,
          (Entries.taken_erase hold).get?_of_ne hnodup hne]
    · refine Json.at?_putAt_of_not_prefix _ _ hparent fun hother => ?_
      exact hup (hother.trans (List.prefix_append _ _))

/-- The objects that lead to the one with the entry keep their keys. -/
theorem exists_keys_remove_above {above rest : List Text} {next : Text} (hne : rest ≠ [])
    (hpath : path.segments = above ++ next :: rest) (h : registry.get? path = some old) :
    ∃ before after, registry.toJson.at? above = some (.object before) ∧
      (registry.remove path).2.toJson.at? above = some (.object after) ∧
      Entries.keys after = Entries.keys before := by
  obtain ⟨inner, last, rfl⟩ := (List.eq_nil_or_concat' rest).resolve_left hne
  have hparent : path.segments = (above ++ next :: inner) ++ [last] := by simp [hpath]
  obtain ⟨entries, hentries, -, -, hafter⟩ := exists_remove hparent h
  rw [Json.at?_append, Option.bind_eq_some_iff] at hentries
  obtain ⟨node, hnode, hinner⟩ := hentries
  cases node with
  | object before =>
    obtain ⟨after, hput, hkeys⟩ := Json.exists_keys_putAt
      (.object (Entries.erase last entries)) next inner (.object before)
    refine ⟨before, after, hnode, ?_, ?_⟩
    · rw [hafter, Json.putAt_append, Json.at?_updateAt_self, hnode, Option.getD_some, hput]
    · rw [Json.at?_object_cons, Option.bind_eq_some_iff] at hinner
      obtain ⟨child, hchild, -⟩ := hinner
      rw [hkeys]
      exact Entries.withKey_of_mem (List.mem_map_of_mem (Entries.mem_of_get? hchild))
  | null | bool | number | string | array => cases hinner

/-- What removing a path tells and leaves. It tells what the path read; if that is nothing, it
leaves the registry as it is. Otherwise the path and all below it read nothing, where another path
diverges it reads as before, the object that had the entry keeps the others, the last of them in
the place of the one that went, and the objects above it keep all their keys in order. -/
theorem remove_takes_one (h : registry.DistinctKeys) (path other : RegistryPath) :
    (registry.remove path).1 = registry.get? path ∧
    (registry.get? path = none → (registry.remove path).2 = registry) ∧
    ∀ old, registry.get? path = some old →
      (∀ rest, other.segments = path.segments ++ rest →
        (registry.remove path).2.get? other = none) ∧
      (path.Diverges other → (registry.remove path).2.get? other = registry.get? other) ∧
      (∀ parent last, path.segments = parent ++ [last] →
        ∃ before after, registry.toJson.at? parent = some (.object before) ∧
          (registry.remove path).2.toJson.at? parent = some (.object after) ∧
          Entries.Taken last old before after) ∧
      ∀ above next rest, path.segments = above ++ next :: rest → rest ≠ [] →
        ∃ before after, registry.toJson.at? above = some (.object before) ∧
          (registry.remove path).2.toJson.at? above = some (.object after) ∧
          Entries.keys after = Entries.keys before := by
  refine ⟨?_, fun hnone => ?_, fun old hold => ⟨fun rest hother => ?_, fun hdiverges => ?_,
    fun parent last hpath => ?_, fun above next rest hpath hne => ?_⟩⟩
  · cases hget : registry.get? path with
    | none => rw [remove_of_get?_eq_none hget]
    | some old =>
      obtain ⟨parent, last, hpath⟩ :=
        (List.eq_nil_or_concat' path.segments).resolve_left path.ne_nil
      obtain ⟨_, -, -, htold, -⟩ := exists_remove hpath hget
      exact htold
  · rw [remove_of_get?_eq_none hnone]
  · obtain ⟨parent, last, hpath⟩ :=
      (List.eq_nil_or_concat' path.segments).resolve_left path.ne_nil
    obtain ⟨before, hbefore, hget, -, hafter⟩ := exists_remove hpath hold
    have hgone := (Entries.taken_erase hget).get?_self (h parent before hbefore)
    rw [get?, hafter, hother, hpath, List.append_assoc, Json.at?_putAt_append,
      List.singleton_append, Json.at?_object_cons, hgone, Option.bind_none]
  · exact get?_remove_of_diverges h hdiverges
  · obtain ⟨before, hbefore, hget, -, hafter⟩ := exists_remove hpath hold
    refine ⟨before, _, hbefore, ?_, Entries.taken_erase hget⟩
    rw [hafter, Json.at?_putAt_self]
  · exact exists_keys_remove_above hne hpath hold

/-- A registry with three entries in one object. -/
def trio : Registry :=
  ⟨[("z".toList, .object [("k".toList, .nat 1), ("l".toList, .nat 2), ("m".toList, .nat 3)])]⟩

theorem distinctKeys_trio : trio.DistinctKeys := by
  have hnumber : ∀ n, (Json.nat n).DistinctKeys := fun _ =>
    Json.distinctKeys_of_entries?_eq_none rfl
  simp [DistinctKeys, toJson, trio, Json.distinctKeys_object_iff, Entries.keys, hnumber]

/-- The first of three entries goes, and the third stands in its place before the second. -/
theorem remove_takes_one_trio :
    ∃ zk zl : RegistryPath, zk.text = "z.k".toList ∧ zl.text = "z.l".toList ∧
      trio.DistinctKeys ∧ (trio.remove zk).1 = some (.nat 1) ∧
      (trio.remove zk).2.get? zk = none ∧ (trio.remove zk).2.get? zl = some (.nat 2) ∧
      ∃ before, trio.toJson.at? ["z".toList] = some (.object before) ∧
        (trio.remove zk).2.toJson.at? ["z".toList] =
          some (.object [("m".toList, .nat 3), ("l".toList, .nat 2)]) ∧
        Entries.Taken "k".toList (.nat 1) before [("m".toList, .nat 3), ("l".toList, .nat 2)] := by
  let zk : RegistryPath := ⟨["z".toList, "k".toList], by decide, by decide⟩
  let zl : RegistryPath := ⟨["z".toList, "l".toList], by decide, by decide⟩
  obtain ⟨htold, -, htaken⟩ := remove_takes_one distinctKeys_trio zk zl
  obtain ⟨-, hapart, hparent, -⟩ := htaken (.nat 1) rfl
  obtain ⟨before, after, hbefore, hafter, htake⟩ := hparent ["z".toList] "k".toList rfl
  obtain ⟨-, -, hself⟩ := remove_takes_one distinctKeys_trio zk zk
  obtain rfl : [("m".toList, Json.nat 3), ("l".toList, Json.nat 2)] = after :=
    Json.object.inj (Option.some.inj hafter)
  exact ⟨zk, zl, rfl, rfl, distinctKeys_trio, htold, (hself (.nat 1) rfl).1 [] rfl,
    hapart ⟨by decide, by decide⟩, before, hbefore, hafter, htake⟩

end Registry

end ViewBuilder
