import ViewBuilder.Proofs.Registry.Shape

/-!
# Every path after a set

A path that is read lies at or below the path that was set, or above it, or it diverges from it.
Below, it reads inside the new value. Above, it reads as an object that has the keys it had before,
in their order, and behind them the next segment of the path if that is new. Elsewhere nothing has
changed.
-/

namespace ViewBuilder

/-- A key that is new comes behind those that are there. -/
def Entries.withKey {κ : Type} [DecidableEq κ] (keys : List κ) (key : κ) : List κ :=
  if key ∈ keys then keys else keys ++ [key]

namespace Json

/-! ## Inside a value -/

theorem at?_append (path rest : List Text) (value : Json) :
    at? (path ++ rest) value = (at? path value).bind (at? rest) := by
  induction path generalizing value with
  | nil => rfl
  | cons segment more ih =>
    rw [List.cons_append, at?, at?, Option.bind_assoc]
    congr 1
    funext entries
    rw [Option.bind_assoc]
    congr 1
    funext child
    exact ih child

theorem at?_putAt_append (new value : Json) (path rest : List Text) :
    at? (path ++ rest) (putAt new path value) = at? rest new := by
  rw [at?_append, at?_putAt_self, Option.bind_some]

theorem getD_at?_null (path : List Text) : (at? path .null).getD .null = .null := by
  cases path with
  | nil => rfl
  | cons segment rest => rfl

/-- Where a change is made, null stands for a value that is missing. -/
theorem at?_updateAt_self (change : Json → Json) (path : List Text) (value : Json) :
    at? path (updateAt change path value) = some (change ((at? path value).getD .null)) := by
  induction path generalizing value with
  | nil => rfl
  | cons segment rest ih =>
    have hchild : (at? rest ((Entries.get? segment (value.entries?.getD [])).getD .null)).getD .null =
        (at? (segment :: rest) value).getD .null := by
      rw [at?]
      cases value.entries? with
      | none => exact getD_at?_null rest
      | some entries =>
        rw [Option.getD_some, Option.bind_some]
        cases Entries.get? segment entries with
        | none => exact getD_at?_null rest
        | some child => rfl
    rw [updateAt, at?, entries?_object, Option.bind_some, Entries.get?_put_self, Option.bind_some,
      ih, hchild]

/-- The keys of an object in their order; what is no object has none. -/
def keys (value : Json) : List Text := Entries.keys (value.entries?.getD [])

/-- The way to a new value goes through an object, which keeps its keys. -/
theorem exists_keys_putAt (new : Json) (segment : Text) (rest : List Text) (value : Json) :
    ∃ entries, putAt new (segment :: rest) value = .object entries ∧
      Entries.keys entries = Entries.withKey value.keys segment :=
  ⟨_, rfl, Entries.keys_put _ _ _⟩

end Json

/-! ## In the registry -/

namespace Registry

/-- The keys of the object at a path; there are none if there is no object. -/
def keysAt (registry : Registry) (path : RegistryPath) : List Text :=
  ((registry.get? path).getD .null).keys

theorem get?_set_below (registry : Registry) {path other : RegistryPath} (value : Json)
    {rest : List Text} (h : other.segments = path.segments ++ rest) :
    (registry.set path value).get? other = value.at? rest := by
  rw [get?, toJson_set, h, Json.at?_putAt_append]

theorem exists_get?_set_above (registry : Registry) {path other : RegistryPath} (value : Json)
    {next : Text} {rest : List Text} (h : path.segments = other.segments ++ next :: rest) :
    ∃ entries, (registry.set path value).get? other = some (.object entries) ∧
      Entries.keys entries = Entries.withKey (registry.keysAt other) next := by
  obtain ⟨entries, hentries, hkeys⟩ :=
    Json.exists_keys_putAt value next rest ((registry.get? other).getD .null)
  refine ⟨entries, ?_, hkeys⟩
  rw [get?, toJson_set, h, Json.putAt_append, Json.at?_updateAt_self]
  exact congrArg some hentries

/-- What any other path reads once a path is set: at or below the path it reads inside the new
value; where it diverges it reads as before; and above the path it reads as an object with the keys
that were there in the same order, with the next segment behind them unless it is one of them. -/
theorem get?_set (registry : Registry) (path other : RegistryPath) (value : Json) :
    (∀ rest, other.segments = path.segments ++ rest →
      (registry.set path value).get? other = value.at? rest) ∧
    (path.Diverges other → (registry.set path value).get? other = registry.get? other) ∧
    (∀ next rest, path.segments = other.segments ++ next :: rest →
      ∃ entries, (registry.set path value).get? other = some (.object entries) ∧
        Entries.keys entries = Entries.withKey (registry.keysAt other) next) := by
  refine ⟨fun rest h => ?_, fun h => ?_, fun next rest h => ?_⟩
  · exact registry.get?_set_below value h
  · exact registry.get?_set_of_diverges value h
  · exact registry.exists_get?_set_above value h

def inner : Json := .object [("x".toList, .nat 1)]

/-- A registry with a number where an object has to go. -/
def numbered : Registry :=
  ⟨[("z".toList, .object [("k".toList, .nat 1), ("l".toList, .nat 2)])]⟩

/-- The number gives way, its neighbour stays, and the keys around it keep their order. -/
theorem get?_set_numbered :
    ∃ z zk zkm zkmx zl : RegistryPath, z.text = "z".toList ∧ zk.text = "z.k".toList ∧
      zkm.text = "z.k.m".toList ∧ zkmx.text = "z.k.m.x".toList ∧ zl.text = "z.l".toList ∧
      (numbered.set zkm inner).get? zkmx = some (.nat 1) ∧
      (numbered.set zkm inner).get? zl = some (.nat 2) ∧
      (∃ entries, (numbered.set zkm inner).get? zk = some (.object entries) ∧
        Entries.keys entries = ["m".toList]) ∧
      ∃ entries, (numbered.set zkm inner).get? z = some (.object entries) ∧
        Entries.keys entries = ["k".toList, "l".toList] := by
  let z : RegistryPath := ⟨["z".toList], by decide, by decide⟩
  let zk : RegistryPath := ⟨["z".toList, "k".toList], by decide, by decide⟩
  let zkm : RegistryPath := ⟨["z".toList, "k".toList, "m".toList], by decide, by decide⟩
  let zkmx : RegistryPath :=
    ⟨["z".toList, "k".toList, "m".toList, "x".toList], by decide, by decide⟩
  let zl : RegistryPath := ⟨["z".toList, "l".toList], by decide, by decide⟩
  refine ⟨z, zk, zkm, zkmx, zl, rfl, rfl, rfl, rfl, rfl, ?_, ?_, ?_, ?_⟩
  · exact (numbered.get?_set zkm zkmx inner).1 ["x".toList] rfl
  · exact (numbered.get?_set zkm zl inner).2.1 ⟨by decide, by decide⟩
  · exact (numbered.get?_set zkm zk inner).2.2 "m" [] rfl
  · exact (numbered.get?_set zkm z inner).2.2 "k" ["m".toList] rfl

end Registry

end ViewBuilder
