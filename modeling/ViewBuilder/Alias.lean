import ViewBuilder.Entries
import ViewBuilder.Text

/-!
# Aliases

An alias is a named fragment: markup, and the code that goes with it. There are two kinds,
templates and layouts. A fragment may be meant for one view; it then wins over one of the same
name for all views.
-/

namespace ViewBuilder

inductive AliasKind where
  | template
  | layout
deriving DecidableEq, Repr

def AliasKind.name : AliasKind → Text
  | .template => "template"
  | .layout => "layout"

structure Fragment where
  html : Text
  phpView : Text
deriving DecidableEq

/-- What stands behind each name, kind and view; none when the alias is unknown. -/
abbrev AliasSource := AliasKind → Text → Text → Option Fragment

structure AliasStore where
  shared : List ((AliasKind × Text) × Fragment)
  perView : List ((AliasKind × Text × Text) × Fragment)

namespace AliasStore

def empty : AliasStore := ⟨[], []⟩

def insert (store : AliasStore) (kind : AliasKind) (name : Text) (fragment : Fragment) :
    AliasStore :=
  { store with shared := Entries.put (kind, name) fragment store.shared }

def insertForView (store : AliasStore) (kind : AliasKind) (view name : Text)
    (fragment : Fragment) : AliasStore :=
  { store with perView := Entries.put (kind, view, name) fragment store.perView }

def size (store : AliasStore) : Nat := store.shared.length + store.perView.length

def isEmpty (store : AliasStore) : Bool := store.size = 0

def find (store : AliasStore) : AliasSource := fun kind name view =>
  (Entries.get? (kind, view, name) store.perView).or (Entries.get? (kind, name) store.shared)

end AliasStore

/-! ## Lists of aliases -/

structure AliasEntry where
  name : Text
  view : Option Text
  fragment : Fragment
deriving DecidableEq

structure AliasSet where
  templates : List AliasEntry
  layouts : List AliasEntry
deriving DecidableEq

namespace AliasStore

def add (kind : AliasKind) (store : AliasStore) (entry : AliasEntry) : AliasStore :=
  match entry.view with
  | some view => store.insertForView kind view entry.name entry.fragment
  | none => store.insert kind entry.name entry.fragment

/-- Adds the templates and then the layouts, each in order. -/
def ofSet (set : AliasSet) : AliasStore :=
  set.layouts.foldl (add .layout) (set.templates.foldl (add .template) empty)

end AliasStore

end ViewBuilder
