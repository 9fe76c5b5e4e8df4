import ViewBuilder.Config
import ViewBuilder.Reference
import ViewBuilder.Registry

/-!
# Resolving references

The references in a block of markup are looked up one after the other, templates first. What is
in the registry already counts as found. A fragment that an alias source knows is stored, and its
parts become blocks of their own, one level deeper, which are visited before the blocks that were
waiting. A part beyond the depth limit ends the search, with the registry as it is by then.

Who answers the lookups may answer differently from one to the next. The search ends all the same,
even when there are always new names, because a block at the limit has no children.
-/

namespace ViewBuilder

namespace Fragment

/-- The parts of a fragment that may hold references. -/
def parts (fragment : Fragment) : List Text :=
  [fragment.html, fragment.phpView].filter fun part => !Text.allBlank part

def toJson (fragment : Fragment) : Json :=
  .object [("html".toList, .string fragment.html), ("php_view".toList, .string fragment.phpView)]

end Fragment

/-- Who answers the lookups. An answer may depend on what was looked up before. -/
structure AliasResolver where
  after : List Reference → AliasSource

namespace AliasResolver

/-- Gives every time the same answer. -/
def ofSource (source : AliasSource) : AliasResolver := ⟨fun _ => source⟩

instance : Coe AliasSource AliasResolver := ⟨ofSource⟩

/-- The resolver as it is once some lookups are behind it. -/
def resume (resolver : AliasResolver) (past : List Reference) : AliasResolver :=
  ⟨fun later => resolver.after (past ++ later)⟩

@[simp] theorem resume_ofSource (source : AliasSource) (past : List Reference) :
    (ofSource source).resume past = ofSource source := rfl

end AliasResolver

/-- What stays the same during one search. -/
structure Search where
  config : Config
  aliases : AliasResolver
  view : Text

/-- A piece of markup that waits to be visited. -/
structure Block where
  content : Text
  depth : Nat

/-- What a search has done so far; the lookups are those that went to the resolver. -/
structure Progress where
  registry : Registry
  found : Bool
  lookups : List Reference

namespace Search

/-! ## One reference -/

/-- The answer to a lookup that comes after others. -/
def lookup? (search : Search) (past : List Reference) (reference : Reference) : Option Fragment :=
  search.aliases.after past reference.kind reference.name search.view

/-- Where a reference is stored for one side. -/
def pathFor (search : Search) (target : BuildTarget) (reference : Reference) :
    Except Failure RegistryPath :=
  match reference.kind with
  | .template => RegistryPath.templateData target search.view reference.name
  | .layout => RegistryPath.layoutData target reference.name

def path (search : Search) (reference : Reference) : Except Failure RegistryPath :=
  search.pathFor search.config.buildTarget reference

/-- The side that a reference is stored for besides the one that is built. -/
def mirror? (search : Search) (reference : Reference) : Option BuildTarget :=
  match reference.kind with
  | .template => none
  | .layout => search.config.mirrorTarget

/-- Stores a fragment, for a layout perhaps on both sides. -/
def store (search : Search) (registry : Registry) (path : RegistryPath) (reference : Reference)
    (fragment : Fragment) : Registry :=
  let registry := registry.set path fragment.toJson
  match (search.mirror? reference).map fun target => search.pathFor target reference with
  | some (.ok other) => registry.set other fragment.toJson
  | _ => registry

/-- The blocks of a fragment that was found at a depth. -/
def children (search : Search) (depth : Nat) (path : RegistryPath) (fragment : Fragment) :
    Except Failure (List Block) :=
  if fragment.parts.isEmpty then .ok []
  else if search.config.maxResolveDepth < depth + 1 then
    .error (.depthExceeded path.text (depth + 1) search.config.maxResolveDepth)
  else .ok (fragment.parts.map fun part => ⟨part, depth + 1⟩)

/-- Handles one reference of a block. -/
def visitReference (search : Search) (depth : Nat) (reference : Reference) (progress : Progress) :
    Except Failure (List Block) × Progress :=
  match search.path reference with
  | .error failure => (.error failure, progress)
  | .ok path =>
    if progress.registry.has path then (.ok [], { progress with found := true })
    else
      let past := progress.lookups
      match search.lookup? past reference with
      | none => (.ok [], { progress with lookups := past ++ [reference] })
      | some fragment =>
        (search.children depth path fragment,
          { registry := search.store progress.registry path reference fragment
            found := true
            lookups := past ++ [reference] })

/-! ## One block -/

/-- Handles references in order, and collects the blocks that they lead to. -/
def visitAll (search : Search) (depth : Nat) : List Reference → Progress →
    Except Failure (List Block) × Progress
  | [], progress => (.ok [], progress)
  | reference :: rest, progress =>
    match search.visitReference depth reference progress with
    | (.error failure, progress) => (.error failure, progress)
    | (.ok blocks, progress) =>
      match visitAll search depth rest progress with
      | (.error failure, progress) => (.error failure, progress)
      | (.ok more, progress) => (.ok (blocks ++ more), progress)

def visit (search : Search) (block : Block) (progress : Progress) :
    Except Failure (List Block) × Progress :=
  search.visitAll block.depth (References.scan block.content).toList progress

/-! ## Why the search ends

Visiting the top block of a stack puts blocks one level deeper in its place, any number of them,
but none beyond the limit. -/

/-- `next` may be what visiting the top of `stack` leaves. -/
def Leaves (search : Search) (next stack : List Block) : Prop :=
  ∃ block rest blocks, stack = block :: rest ∧ next = blocks ++ rest ∧
    ∀ child ∈ blocks, child.depth = block.depth + 1 ∧ child.depth ≤ search.config.maxResolveDepth

theorem acc_leaves_cons {search : Search} (room : Nat) {block : Block} {rest : List Block}
    (hroom : search.config.maxResolveDepth - block.depth ≤ room) (hrest : Acc search.Leaves rest) :
    Acc search.Leaves (block :: rest) := by
  induction room generalizing block rest with
  | zero =>
    constructor
    rintro next ⟨_, _, blocks, hstack, rfl, hblocks⟩
    obtain ⟨rfl, rfl⟩ := List.cons.inj hstack
    cases blocks with
    | nil => exact hrest
    | cons child more =>
      have := hblocks child List.mem_cons_self
      omega
  | succ room ih =>
    constructor
    rintro next ⟨_, _, blocks, hstack, rfl, hblocks⟩
    obtain ⟨rfl, rfl⟩ := List.cons.inj hstack
    -- The children are at most `room` levels away from the limit.
    induction blocks with
    | nil => exact hrest
    | cons child more ihmore =>
      have := hblocks child List.mem_cons_self
      exact ih (by omega) (ihmore fun other h => hblocks other (List.mem_cons_of_mem _ h))

theorem leaves_wellFounded (search : Search) : WellFounded search.Leaves := by
  constructor
  intro stack
  induction stack with
  | nil =>
    constructor
    rintro next ⟨_, _, _, h, _⟩
    cases h
  | cons block rest ih => exact acc_leaves_cons _ (Nat.le_refl _) ih

theorem children_eq_ok {search : Search} {depth : Nat} {path : RegistryPath} {fragment : Fragment}
    {blocks : List Block} (h : search.children depth path fragment = .ok blocks) :
    blocks = fragment.parts.map (fun part => ⟨part, depth + 1⟩) ∧
      ∀ child ∈ blocks, child.depth = depth + 1 ∧ child.depth ≤ search.config.maxResolveDepth := by
  unfold children at h
  split at h
  · rename_i hp
    cases h
    simp [List.isEmpty_iff.1 hp]
  · split at h
    · cases h
    · cases h
      refine ⟨rfl, fun child hc => ?_⟩
      obtain ⟨part, -, rfl⟩ := List.mem_map.1 hc
      exact ⟨rfl, by simp; omega⟩

theorem visitReference_depth {search : Search} {depth : Nat} {reference : Reference}
    {progress after : Progress} {blocks : List Block}
    (h : search.visitReference depth reference progress = (.ok blocks, after)) :
    ∀ child ∈ blocks, child.depth = depth + 1 ∧ child.depth ≤ search.config.maxResolveDepth := by
  unfold visitReference at h
  split at h
  · cases h
  · split at h
    · cases h
      simp
    · dsimp only at h
      split at h
      · cases h
        simp
      · exact (children_eq_ok (Prod.mk.inj h).1).2

theorem visitAll_depth {search : Search} {depth : Nat} {references : List Reference}
    {progress after : Progress} {blocks : List Block}
    (h : search.visitAll depth references progress = (.ok blocks, after)) :
    ∀ child ∈ blocks, child.depth = depth + 1 ∧ child.depth ≤ search.config.maxResolveDepth := by
  induction references generalizing progress blocks with
  | nil =>
    cases h
    simp
  | cons reference rest ih =>
    rw [visitAll] at h
    split at h
    · cases h
    · rename_i first _ hfirst
      split at h
      · cases h
      · rename_i more _ hmore
        cases h
        intro child hc
        rcases List.mem_append.1 hc with hc | hc
        · exact visitReference_depth hfirst child hc
        · exact ih hmore child hc

/-- Visiting a block leaves what `Leaves` says. -/
theorem leaves_visit {search : Search} {block : Block} {progress after : Progress}
    {blocks : List Block} (rest : List Block)
    (h : search.visit block progress = (.ok blocks, after)) :
    search.Leaves (blocks ++ rest) (block :: rest) :=
  ⟨block, rest, blocks, rfl, rfl, visitAll_depth h⟩

/-! ## The whole search -/

/-- Visits blocks from the top of a stack until none is left. -/
def drain (search : Search) (stack : List Block) (progress : Progress) :
    Except Failure Unit × Progress :=
  match stack with
  | [] => (.ok (), progress)
  | block :: rest =>
    match _visited : search.visit block progress with
    | (.error failure, progress) => (.error failure, progress)
    | (.ok blocks, progress) => search.drain (blocks ++ rest) progress
termination_by search.leaves_wellFounded.wrap stack
decreasing_by exact leaves_visit _ ‹_›

/-- Names that stand in for those in the top block; a kind without any is scanned for. -/
structure Given where
  templates : List Text := []
  layouts : List Text := []

def Given.references (given : Given) (content : Text) : References :=
  let scanned := References.scan content
  { templates := if given.templates.isEmpty then scanned.templates else given.templates
    layouts := if given.layouts.isEmpty then scanned.layouts else given.layouts }

/-- Resolves everything that a text refers to, directly or through fragments. -/
def resolve (search : Search) (content : Text) (given : Given) (progress : Progress) :
    Except Failure Unit × Progress :=
  match search.visitAll 0 (given.references content).toList progress with
  | (.error failure, progress) => (.error failure, progress)
  | (.ok blocks, progress) => search.drain blocks progress

end Search

end ViewBuilder
