import ViewBuilder.Proofs.Resolver.Place

/-!
# What a search keeps

A search goes from one reference to the next. `Visit` says what can happen at a reference. What
holds before a reference and is kept by `Visit`, and by going on to the next block, holds in the
end (`Kept.resolve`).
-/

namespace ViewBuilder

/-- The references of a block, in the order in which they are visited. -/
def Block.references (block : Block) : List Reference := (References.scan block.content).toList

/-! ## Names that are scanned for -/

theorem CallShape.ne_nil_of_mem_scan {shape : CallShape} {t name : Text}
    (h : name ∈ shape.scan t) : name ≠ [] := by
  simpa using (List.mem_filter.1 h).2

theorem References.name_ne_nil {t : Text} {reference : Reference}
    (h : reference ∈ (References.scan t).toList) : reference.name ≠ [] := by
  rw [toList, List.mem_append, List.mem_map, List.mem_map] at h
  rcases h with ⟨name, hname, rfl⟩ | ⟨name, hname, rfl⟩
  · rcases List.mem_append.1 hname with hsingle | hdouble
    · exact CallShape.ne_nil_of_mem_scan hsingle
    · exact CallShape.ne_nil_of_mem_scan hdouble
  · rcases List.mem_append.1 hname with hsingle | hdouble
    · exact CallShape.ne_nil_of_mem_scan hsingle
    · exact CallShape.ne_nil_of_mem_scan hdouble

namespace Search

variable {search : Search}

/-! ## One reference -/

/-- The parts of a fragment are refused for one reason only. -/
theorem children_eq_error {depth : Nat} {path : RegistryPath} {fragment : Fragment}
    {failure : Failure} (h : search.children depth path fragment = .error failure) :
    failure = .depthExceeded path.text (depth + 1) search.config.maxResolveDepth ∧
      fragment.parts ≠ [] ∧ search.config.maxResolveDepth < depth + 1 := by
  unfold children at h
  split at h
  · cases h
  · rename_i hparts
    split at h
    · rename_i hroom
      exact ⟨(Except.error.inj h).symm, fun hnil => hparts (List.isEmpty_iff.2 hnil), hroom⟩
    · cases h

/-- What a visit of a reference gives and leaves. -/
inductive Visit (search : Search) (depth : Nat) (reference : Reference) (progress : Progress) :
    Except Failure (List Block) → Progress → Prop where
  | noPath {failure : Failure} :
      search.path reference = .error failure → Visit search depth reference progress
        (.error failure) progress
  | present {path : RegistryPath} :
      search.path reference = .ok path → progress.registry.has path = true →
      Visit search depth reference progress (.ok []) { progress with found := true }
  | unknown {path : RegistryPath} :
      search.path reference = .ok path → progress.registry.has path = false →
      search.lookup? progress.lookups reference = none →
      Visit search depth reference progress (.ok [])
        { progress with lookups := progress.lookups ++ [reference] }
  | stored {path : RegistryPath} {fragment : Fragment} :
      search.path reference = .ok path → progress.registry.has path = false →
      search.lookup? progress.lookups reference = some fragment →
      Visit search depth reference progress (search.children depth path fragment)
        { registry := search.store progress.registry path reference fragment
          found := true
          lookups := progress.lookups ++ [reference] }

theorem visit_visitReference (search : Search) (depth : Nat) (reference : Reference)
    (progress : Progress) :
    Visit search depth reference progress (search.visitReference depth reference progress).1
      (search.visitReference depth reference progress).2 := by
  unfold visitReference
  cases hpath : search.path reference with
  | error failure => exact .noPath hpath
  | ok path =>
    dsimp only
    cases hhas : progress.registry.has path with
    | true => exact .present hpath hhas
    | false =>
      simp only [Bool.false_eq_true, if_false]
      cases hlookup : search.lookup? progress.lookups reference with
      | none => exact .unknown hpath hhas hlookup
      | some fragment => exact .stored hpath hhas hlookup

theorem visit_of_eq {depth : Nat} {reference : Reference} {progress after : Progress}
    {outcome : Except Failure (List Block)}
    (h : search.visitReference depth reference progress = (outcome, after)) :
    Visit search depth reference progress outcome after := by
  have := visit_visitReference search depth reference progress
  rwa [h] at this

/-! ## A whole search -/

@[simp] theorem drain_nil (search : Search) (progress : Progress) :
    search.drain [] progress = (.ok (), progress) := by
  rw [drain]

theorem drain_cons (search : Search) (block : Block) (rest : List Block) (progress : Progress) :
    search.drain (block :: rest) progress =
      match search.visit block progress with
      | (.error failure, progress) => (.error failure, progress)
      | (.ok blocks, progress) => search.drain (blocks ++ rest) progress := by
  rw [drain]
  split <;> rename_i h <;> simp [h]

/-- A property of a search between two references that is kept: of the depth of the current block,
the references in it that are left, the blocks that wait, and the progress. -/
structure Kept (search : Search) (P : Nat → List Reference → List Block → Progress → Prop) :
    Prop where
  visit : ∀ {depth reference left waiting more blocks progress after},
    P depth (reference :: left) (waiting ++ more) progress →
    Visit search depth reference progress (.ok blocks) after →
    P depth left (waiting ++ blocks ++ more) after
  descend : ∀ {depth block rest progress},
    P depth [] (block :: rest) progress → P block.depth block.references rest progress

/-- How a search ends that keeps a property: with nothing left, or at a reference that fails. -/
def Ends (search : Search) (P : Nat → List Reference → List Block → Progress → Prop) :
    Except Failure Unit → Progress → Prop
  | .ok (), after => ∃ depth, P depth [] [] after
  | .error failure, after => ∃ depth reference left waiting progress,
      P depth (reference :: left) waiting progress ∧
        Visit search depth reference progress (.error failure) after

variable {P : Nat → List Reference → List Block → Progress → Prop}

theorem Kept.visitAll (kept : Kept search P) {depth : Nat} {references : List Reference}
    (waiting more : List Block) {progress after : Progress} {outcome : Except Failure (List Block)}
    (hp : P depth references (waiting ++ more) progress)
    (h : search.visitAll depth references progress = (outcome, after)) :
    match outcome with
    | .ok blocks => P depth [] (waiting ++ blocks ++ more) after
    | .error failure => Ends search P (.error failure) after := by
  induction references generalizing waiting progress outcome with
  | nil =>
    cases h
    simpa using hp
  | cons reference left ih =>
    rw [Search.visitAll] at h
    split at h
    · rename_i failure afterFirst hfirst
      cases h
      exact ⟨depth, reference, left, _, progress, hp, visit_of_eq hfirst⟩
    · rename_i blocks afterFirst hfirst
      have hnext := kept.visit hp (visit_of_eq hfirst)
      split at h
      · rename_i hrest
        cases h
        exact ih _ hnext hrest
      · rename_i others afterRest hrest
        cases h
        simpa using ih _ hnext hrest

theorem Kept.drain (kept : Kept search P) {depth : Nat} {stack : List Block}
    {progress after : Progress} {outcome : Except Failure Unit} (hp : P depth [] stack progress)
    (h : search.drain stack progress = (outcome, after)) : Ends search P outcome after := by
  fun_induction Search.drain search stack progress generalizing depth with
  | case1 progress =>
    cases h
    exact ⟨depth, hp⟩
  | case2 progress block rest failure afterBlock hvisit =>
    cases h
    exact kept.visitAll [] rest (kept.descend hp) hvisit
  | case3 progress block rest blocks afterBlock hvisit ih =>
    have hnext := kept.visitAll [] rest (kept.descend hp) hvisit
    exact ih (by simpa using hnext) h

/-- What holds at the top and is kept holds when the search ends. -/
theorem Kept.resolve (kept : Kept search P) {content : Text} {given : Given}
    {progress after : Progress} {outcome : Except Failure Unit}
    (hp : P 0 (given.references content).toList [] progress)
    (h : search.resolve content given progress = (outcome, after)) :
    Ends search P outcome after := by
  rw [Search.resolve] at h
  split at h
  · rename_i htop
    cases h
    exact kept.visitAll [] [] hp htop
  · rename_i blocks afterTop htop
    have hnext := kept.visitAll [] [] hp htop
    exact kept.drain (by simpa using hnext) h

/-- What holds of a search and is kept at every reference, also at one that fails, holds in the
end, however the search ends. -/
theorem resolve_keeps {Q : Progress → Prop}
    (kept : ∀ {depth reference progress outcome after}, Q progress →
      Visit search depth reference progress outcome after → Q after)
    {content : Text} {given : Given} {progress after : Progress} {outcome : Except Failure Unit}
    (hq : Q progress) (h : search.resolve content given progress = (outcome, after)) : Q after := by
  have hkept : Kept search fun _ _ _ progress => Q progress :=
    ⟨fun hp hvisit => kept hp hvisit, fun hp => hp⟩
  have hends := hkept.resolve hq h
  cases outcome with
  | ok =>
    obtain ⟨-, hafter⟩ := hends
    exact hafter
  | error failure =>
    obtain ⟨_, _, _, _, _, hbefore, hvisit⟩ := hends
    exact kept hbefore hvisit

/-! ## Searches that can be computed

`drain` recurses along a relation, so it does not unfold by computation. A bound on the number of
blocks makes the recursion structural. -/

/-- What `drain` comes to, if it visits at most so many blocks. -/
def drainWithin (search : Search) : Nat → List Block → Progress →
    Option (Except Failure Unit × Progress)
  | _, [], progress => some (.ok (), progress)
  | 0, _ :: _, _ => none
  | steps + 1, block :: rest, progress =>
    match search.visit block progress with
    | (.error failure, progress) => some (.error failure, progress)
    | (.ok blocks, progress) => search.drainWithin steps (blocks ++ rest) progress

theorem drain_eq_of_drainWithin {steps : Nat} {stack : List Block} {progress : Progress}
    {result : Except Failure Unit × Progress}
    (h : search.drainWithin steps stack progress = some result) :
    search.drain stack progress = result := by
  induction steps generalizing stack progress with
  | zero =>
    cases stack with
    | nil => simpa [drainWithin] using h
    | cons block rest => cases h
  | succ steps ih =>
    cases stack with
    | nil => simpa [drainWithin] using h
    | cons block rest =>
      rw [drain_cons]
      rw [drainWithin] at h
      split at h
      · exact Option.some.inj h
      · exact ih h

/-- What `resolve` comes to, if it visits at most so many blocks below the top. -/
def resolveWithin (search : Search) (steps : Nat) (content : Text) (given : Given)
    (progress : Progress) : Option (Except Failure Unit × Progress) :=
  match search.visitAll 0 (given.references content).toList progress with
  | (.error failure, progress) => some (.error failure, progress)
  | (.ok blocks, progress) => search.drainWithin steps blocks progress

theorem resolve_eq_of_resolveWithin {steps : Nat} {content : Text} {given : Given}
    {progress : Progress} {result : Except Failure Unit × Progress}
    (h : search.resolveWithin steps content given progress = some result) :
    search.resolve content given progress = result := by
  unfold resolveWithin at h
  unfold resolve
  generalize search.visitAll 0 (given.references content).toList progress = top at h ⊢
  obtain ⟨outcome, progress⟩ := top
  cases outcome with
  | error failure => exact Option.some.inj h
  | ok blocks => exact drain_eq_of_drainWithin h

end Search

end ViewBuilder
