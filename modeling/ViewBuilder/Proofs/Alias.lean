import ViewBuilder.Alias
import ViewBuilder.Proofs.Writes

/-!
# Which fragment an alias has

An alias that was added for a view comes before one of the same kind and name for all views, and of
several that were added for one place the last one stays, whether they came in a set or one by one.
-/

namespace ViewBuilder

open Entries

/-- What an alias is added for; without a view it is meant for all of them. -/
structure AliasPlace where
  kind : AliasKind
  view : Option Text
  name : Text
deriving DecidableEq

/-- A place of a kind, for a view or for all of them. -/
def AliasPlace.concerns (kind : AliasKind) (view : Text) (place : AliasPlace) : Bool :=
  place.kind = kind && (place.view = none || place.view = some view)

/-! ## Aliases that are added -/

inductive AliasAddition where
  | shared (kind : AliasKind) (name : Text) (fragment : Fragment)
  | forView (kind : AliasKind) (view name : Text) (fragment : Fragment)

namespace AliasAddition

def entry : AliasAddition → AliasPlace × Fragment
  | .shared kind name fragment => (⟨kind, none, name⟩, fragment)
  | .forView kind view name fragment => (⟨kind, some view, name⟩, fragment)

def ofEntry (kind : AliasKind) (entry : AliasEntry) : AliasAddition :=
  match entry.view with
  | some view => .forView kind view entry.name entry.fragment
  | none => .shared kind entry.name entry.fragment

end AliasAddition

/-- The aliases of a set, in the order in which they are added. -/
def AliasSet.additions (set : AliasSet) : List AliasAddition :=
  set.templates.map (.ofEntry .template) ++ set.layouts.map (.ofEntry .layout)

namespace AliasStore

def perform (store : AliasStore) : AliasAddition → AliasStore
  | .shared kind name fragment => store.insert kind name fragment
  | .forView kind view name fragment => store.insertForView kind view name fragment

/-- The store that additions leave, starting with none. -/
def built (additions : List AliasAddition) : AliasStore := additions.foldl perform empty

theorem add_eq (kind : AliasKind) :
    add kind = fun store entry => store.perform (.ofEntry kind entry) := by
  funext store entry
  unfold add AliasAddition.ofEntry
  cases entry.view <;> rfl

theorem ofSet_eq (set : AliasSet) : ofSet set = built set.additions := by
  rw [ofSet, add_eq, add_eq, built, AliasSet.additions, List.foldl_append, List.foldl_map,
    List.foldl_map]

/-! ## What is stored for a place -/

def stored? (store : AliasStore) (place : AliasPlace) : Option Fragment :=
  match place.view with
  | some view => Entries.get? (place.kind, view, place.name) store.perView
  | none => Entries.get? (place.kind, place.name) store.shared

theorem find_eq (store : AliasStore) (kind : AliasKind) (name view : Text) :
    store.find kind name view =
      (store.stored? ⟨kind, some view, name⟩).or (store.stored? ⟨kind, none, name⟩) := rfl

theorem keyed : Keyed stored? perform AliasAddition.entry := by
  rintro store addition ⟨kind, view, name⟩
  cases addition with
  | shared kind' name' fragment =>
    cases view with
    | none => simp [stored?, perform, AliasAddition.entry, insert, get?_put]
    | some view => simp [stored?, perform, AliasAddition.entry, insert]
  | forView kind' view' name' fragment =>
    cases view with
    | none => simp [stored?, perform, AliasAddition.entry, insertForView]
    | some view =>
      simp [stored?, perform, AliasAddition.entry, insertForView, get?_put]

theorem size_perform (store : AliasStore) (addition : AliasAddition) :
    (store.perform addition).size =
      if (store.stored? addition.entry.1).isSome then store.size else store.size + 1 := by
  cases addition with
  | shared kind name fragment =>
    have hput := length_put (kind, name) fragment store.shared
    simp only [perform, insert, size]
    split
    · rename_i hknown
      rw [hput.trans (if_pos hknown)]
    · rename_i hnew
      have hmore := hput.trans (if_neg hnew)
      omega
  | forView kind view name fragment =>
    have hput := length_put (kind, view, name) fragment store.perView
    simp only [perform, insertForView, size]
    split
    · rename_i hknown
      rw [hput.trans (if_pos hknown)]
    · rename_i hnew
      have hmore := hput.trans (if_neg hnew)
      omega

/-! ## After all additions -/

theorem stored?_built (additions : List AliasAddition) (place : AliasPlace) :
    (built additions).stored? place = last? place (additions.map AliasAddition.entry) := by
  have hempty : empty.stored? place = none := by
    unfold stored?
    cases place.view <;> rfl
  rw [built, keyed.read_foldl, hempty, Option.or_none]

theorem size_built (additions : List AliasAddition) :
    (built additions).size = (keys (additions.map AliasAddition.entry)).dedup.length := by
  refine keyed.count_foldl size_perform (fun place => ?_) rfl additions
  unfold stored?
  cases place.view <;> rfl

/-- After a set and whatever is added to it, an alias of a kind in a view is the last one of that
kind and name that was added for that view, else the last one that was added for all views, and else
unknown. So aliases of the other kind and for other views do not matter, and the store holds as many
aliases as there are places that one was added for. -/
theorem find_after_additions (set : AliasSet) (additions : List AliasAddition) :
    let store := additions.foldl perform (ofSet set)
    let all := set.additions ++ additions
    (∀ kind name view, store.find kind name view =
      (last? ⟨kind, some view, name⟩ (all.map AliasAddition.entry)).or
        (last? ⟨kind, none, name⟩ (all.map AliasAddition.entry))) ∧
    (∀ kind name view,
      (built (all.filter fun addition => addition.entry.1.concerns kind view)).find kind name view =
        store.find kind name view) ∧
    store.size = (all.map fun addition => addition.entry.1).dedup.length := by
  intro store all
  have hstore : store = built all := by
    change additions.foldl perform (ofSet set) = (set.additions ++ additions).foldl perform empty
    rw [ofSet_eq, built, List.foldl_append]
  have hfind : ∀ additions kind name view, (built additions).find kind name view =
      (last? ⟨kind, some view, name⟩ (additions.map AliasAddition.entry)).or
        (last? ⟨kind, none, name⟩ (additions.map AliasAddition.entry)) := by
    intro additions kind name view
    rw [find_eq, stored?_built, stored?_built]
  rw [hstore]
  refine ⟨hfind all, fun kind name view => ?_, ?_⟩
  · have hentries : (all.filter fun addition => addition.entry.1.concerns kind view).map
        AliasAddition.entry =
      (all.map AliasAddition.entry).filter fun entry => entry.1.concerns kind view := by
      rw [List.filter_map]
      rfl
    have hview : AliasPlace.concerns kind view ⟨kind, some view, name⟩ = true := by
      simp [AliasPlace.concerns]
    have hall : AliasPlace.concerns kind view ⟨kind, none, name⟩ = true := by
      simp [AliasPlace.concerns]
    rw [hfind, hfind, hentries, last?_filter fun _ => hview, last?_filter fun _ => hall]
  · rw [size_built, keys, List.map_map]
    rfl

/-- The shared layout comes last and the one of the view is used. -/
example : (([.shared .layout "foot" ⟨"all", ""⟩] : List AliasAddition).foldl perform
      (ofSet ⟨[⟨"foot", none, "other", ""⟩], [⟨"foot", some "look", "own", ""⟩]⟩)).find
        .layout "foot" "look" = some ⟨"own", ""⟩ := by
  decide +kernel

end AliasStore

end ViewBuilder
