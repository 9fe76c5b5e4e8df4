import ViewBuilder.Proofs.Registry.Remove

/-!
# Many changes

Changes set or remove a path, one after the other. They leave no object with a key twice, and a
path that all of them diverge from reads as before.
-/

namespace ViewBuilder.Registry

inductive Change where
  | set (path : RegistryPath) (value : Json)
  | remove (path : RegistryPath)

namespace Change

def path : Change → RegistryPath
  | .set path _ => path
  | .remove path => path

/-- A value that comes in has no key twice. -/
def DistinctKeys : Change → Prop
  | .set _ value => value.DistinctKeys
  | .remove _ => True

end Change

def apply (registry : Registry) : Change → Registry
  | .set path value => registry.set path value
  | .remove path => (registry.remove path).2

def applyAll (registry : Registry) (changes : List Change) : Registry := changes.foldl apply registry

variable {registry : Registry} {change : Change} {changes : List Change} {path : RegistryPath}

/-! ## One change -/

theorem DistinctKeys.apply (h : registry.DistinctKeys) (hchange : change.DistinctKeys) :
    (registry.apply change).DistinctKeys := by
  cases change with
  | set path value => exact h.set path hchange
  | remove path => exact h.remove path

theorem get?_apply_of_diverges (h : registry.DistinctKeys) (hdiverges : change.path.Diverges path) :
    (registry.apply change).get? path = registry.get? path := by
  cases change with
  | set other value => exact registry.get?_set_of_diverges value hdiverges
  | remove other => exact get?_remove_of_diverges h hdiverges

/-! ## All changes -/

theorem DistinctKeys.applyAll (h : registry.DistinctKeys)
    (hchanges : ∀ change ∈ changes, change.DistinctKeys) :
    (registry.applyAll changes).DistinctKeys := by
  induction changes generalizing registry with
  | nil => exact h
  | cons change changes ih =>
    rw [List.forall_mem_cons] at hchanges
    exact ih (h.apply hchanges.1) hchanges.2

/-- A removal moves an entry, so what keeps the path is that no object has a key twice. -/
theorem get?_applyAll_of_diverges (h : registry.DistinctKeys)
    (hchanges : ∀ change ∈ changes, change.DistinctKeys)
    (hdiverges : ∀ change ∈ changes, change.path.Diverges path) :
    (registry.applyAll changes).get? path = registry.get? path := by
  induction changes generalizing registry with
  | nil => rfl
  | cons change changes ih =>
    rw [List.forall_mem_cons] at hchanges hdiverges
    have hrest := ih (h.apply hchanges.1) hchanges.2 hdiverges.2
    rw [applyAll, List.foldl_cons]
    exact hrest.trans (get?_apply_of_diverges h hdiverges.1)

end ViewBuilder.Registry
