import ViewBuilder.Proofs.Resolver.Visit

/-!
# The search as a recursion

A block of markup can be handled without a stack: all its names first, and then, one level deeper,
what came with the fragments, in the order in which it came. This recursion and the search do the
same, whoever answers the lookups.
-/

namespace ViewBuilder.Search

variable {search : Search}

/-! ## The recursion -/

/-- A computation that reads and changes what a search has done, and may fail on the way. What it
did before it fails stays done. -/
abbrev Doing := ExceptT Failure (StateM Progress)

/-- A text that came with a fragment, where the limit leaves room for another level. -/
structure Part (search : Search) (depth : Nat) where
  text : Text
  room : depth + 1 ≤ search.config.maxResolveDepth

/-- Remembers a text for the next level. -/
def remember (search : Search) (depth : Nat) (path : RegistryPath) (text : Text) :
    Doing (Part search depth) :=
  if room : depth + 1 ≤ search.config.maxResolveDepth then return ⟨text, room⟩
  else throw (.depthExceeded path.text (depth + 1) search.config.maxResolveDepth)

def put (path : RegistryPath) (fragment : Fragment) : Doing Unit :=
  modify fun progress => { progress with registry := progress.registry.set path fragment.toJson }

/-- Stores a fragment, a layout on both sides if layouts are meant for both. -/
def keep (search : Search) (path : RegistryPath) (kind : AliasKind) (name : Text)
    (fragment : Fragment) : Doing Unit := do
  put path fragment
  if kind = .layout ∧ search.config.langTarget = .both then
    put (← RegistryPath.layoutData search.config.buildTarget.other name) fragment

/-- Handles one name: checks it, asks for it, stores what comes, and remembers its texts. -/
def handle (search : Search) (depth : Nat) (kind : AliasKind) (name : Text) :
    Doing (List (Part search depth)) := do
  let path ← search.pathFor search.config.buildTarget ⟨kind, name⟩
  if (← get).registry.has path then
    modify fun progress => { progress with found := true }
    return []
  let answer := search.lookup? (← get).lookups ⟨kind, name⟩
  modify fun progress => { progress with lookups := progress.lookups ++ [⟨kind, name⟩] }
  match answer with
  | none => return []
  | some fragment =>
    search.keep path kind name fragment
    modify fun progress => { progress with found := true }
    let texts := [fragment.html, fragment.phpView].filter fun text => !Text.allBlank text
    texts.mapM (search.remember depth path)

/-- Handles all names of one block, templates before layouts. -/
def handleAll (search : Search) (depth : Nat) (references : References) :
    Doing (List (Part search depth)) := do
  let fromTemplates ← references.templates.mapM (search.handle depth .template)
  let fromLayouts ← references.layouts.mapM (search.handle depth .layout)
  return fromTemplates.flatten ++ fromLayouts.flatten

/-- Handles the names of a block, and then those of each text that came, one level deeper. -/
def descend (search : Search) (depth : Nat) (references : References) : Doing Unit := do
  let parts ← search.handleAll depth references
  forM parts fun part => search.descend (depth + 1) (References.scan part.text)
termination_by search.config.maxResolveDepth - depth
decreasing_by
  have := part.room
  omega

/-! ## Running it -/

theorem run_bind {α β : Type} (first : Doing α) (next : α → Doing β) (progress : Progress) :
    (first >>= next).run.run progress =
      match first.run.run progress with
      | (.error failure, progress) => (.error failure, progress)
      | (.ok a, progress) => (next a).run.run progress := by
  rw [ExceptT.run_bind, StateT.run_bind]
  obtain ⟨_ | _, after⟩ : Except Failure α × Progress := first.run.run progress
  · rfl
  · rfl

theorem run_map {α β : Type} (f : α → β) (first : Doing α) (progress : Progress) :
    (f <$> first).run.run progress =
      match first.run.run progress with
      | (.error failure, progress) => (.error failure, progress)
      | (.ok a, progress) => (.ok (f a), progress) := by
  rw [map_eq_pure_bind, run_bind]
  rfl

theorem run_get_bind {α : Type} (next : Progress → Doing α) (progress : Progress) :
    (get >>= next).run.run progress = (next progress).run.run progress := rfl

theorem run_modify_bind {α : Type} (change : Progress → Progress) (next : Unit → Doing α)
    (progress : Progress) :
    (modify change >>= next).run.run progress = (next ()).run.run (change progress) := rfl

theorem run_lift_bind {α β : Type} (outcome : Except Failure α) (next : α → Doing β)
    (progress : Progress) :
    ((liftM outcome : Doing α) >>= next).run.run progress =
      match outcome with
      | .error failure => (.error failure, progress)
      | .ok a => (next a).run.run progress := by
  cases outcome with
  | error failure => rfl
  | ok a => rfl

/-! ## One name -/

def Part.block {depth : Nat} (part : Part search depth) : Block := ⟨part.text, depth + 1⟩

theorem mapM_remember_of_room {depth : Nat} (room : depth + 1 ≤ search.config.maxResolveDepth)
    (path : RegistryPath) (texts : List Text) :
    texts.mapM (search.remember depth path) = pure (texts.map fun text => ⟨text, room⟩) := by
  induction texts with
  | nil => rfl
  | cons text rest ih =>
    rw [List.mapM_cons, ih, remember, dif_pos room]
    rfl

theorem mapM_remember_of_no_room {depth : Nat} (h : ¬ depth + 1 ≤ search.config.maxResolveDepth)
    (path : RegistryPath) {texts : List Text} (hne : texts ≠ []) :
    texts.mapM (search.remember depth path) =
      throw (.depthExceeded path.text (depth + 1) search.config.maxResolveDepth) := by
  cases texts with
  | nil => exact absurd rfl hne
  | cons text rest =>
    rw [List.mapM_cons, remember, dif_neg h]
    rfl

theorem run_mapM_remember (search : Search) (depth : Nat) (path : RegistryPath)
    (fragment : Fragment) (progress : Progress) :
    (List.map Part.block <$> fragment.parts.mapM (search.remember depth path)).run.run progress =
      (search.children depth path fragment, progress) := by
  unfold children
  by_cases hempty : fragment.parts = []
  · rw [hempty]
    rfl
  · rw [if_neg (by rwa [List.isEmpty_iff])]
    by_cases room : depth + 1 ≤ search.config.maxResolveDepth
    · rw [if_neg (by omega), mapM_remember_of_room room, map_pure, List.map_map]
      rfl
    · rw [if_pos (by omega), mapM_remember_of_no_room room path hempty]
      rfl

theorem run_keep {path : RegistryPath} {kind : AliasKind} {name : Text} (fragment : Fragment)
    (progress : Progress) (hpath : search.path ⟨kind, name⟩ = .ok path) :
    (search.keep path kind name fragment).run.run progress =
      (.ok (), { progress with
        registry := search.store progress.registry path ⟨kind, name⟩ fragment }) := by
  unfold keep
  split
  · rename_i h
    obtain ⟨rfl, hboth⟩ := h
    obtain ⟨other, ho⟩ := exists_mirror_path search.config.buildTarget.other hpath
    have ho' : RegistryPath.layoutData search.config.buildTarget.other name = .ok other := ho
    rw [store_eq_set_set (mirror?_eq_some_iff.2 ⟨rfl, hboth, rfl⟩) ho, ho']
    rfl
  · rename_i h
    have hm : search.mirror? ⟨kind, name⟩ = none := by
      rw [Option.eq_none_iff_forall_ne_some]
      intro target ht
      obtain ⟨hk, hboth, -⟩ := mirror?_eq_some_iff.1 ht
      exact h ⟨hk, hboth⟩
    rw [store_eq_set hm]
    rfl

theorem visitReference_eq_run_handle (search : Search) (depth : Nat) (kind : AliasKind)
    (name : Text) (progress : Progress) :
    search.visitReference depth ⟨kind, name⟩ progress =
      (List.map Part.block <$> search.handle depth kind name).run.run progress := by
  unfold visitReference handle
  rw [map_bind, run_lift_bind, ← path]
  cases hpath : search.path ⟨kind, name⟩ with
  | error failure => rfl
  | ok path =>
    simp only [map_bind, run_get_bind]
    cases hhas : progress.registry.has path with
    | true => rfl
    | false =>
      simp only [Bool.false_eq_true, if_false, map_bind]
      rw [run_get_bind, run_modify_bind]
      cases search.lookup? progress.lookups ⟨kind, name⟩ with
      | none => rfl
      | some fragment =>
        simp only [map_bind]
        rw [run_bind, run_keep _ _ hpath]
        exact (run_mapM_remember search depth path fragment _).symm

/-! ## One block -/

theorem visitAll_append (search : Search) (depth : Nat) (references more : List Reference)
    (progress : Progress) :
    search.visitAll depth (references ++ more) progress =
      match search.visitAll depth references progress with
      | (.error failure, progress) => (.error failure, progress)
      | (.ok blocks, progress) =>
        match search.visitAll depth more progress with
        | (.error failure, progress) => (.error failure, progress)
        | (.ok others, progress) => (.ok (blocks ++ others), progress) := by
  induction references generalizing progress with
  | nil =>
    simp only [List.nil_append, visitAll]
    rcases search.visitAll depth more progress with ⟨failure | others, after⟩
    · rfl
    · rfl
  | cons reference rest ih =>
    rw [List.cons_append, visitAll, visitAll]
    rcases search.visitReference depth reference progress with ⟨failure | blocks, progress⟩
    · rfl
    · simp only [ih]
      rcases search.visitAll depth rest progress with ⟨failure | others, progress⟩
      · rfl
      · dsimp only
        rcases search.visitAll depth more progress with ⟨failure | last, progress⟩
        · rfl
        · simp only [List.append_assoc]

theorem visitAll_map_eq_run_mapM (search : Search) (depth : Nat) (kind : AliasKind)
    (names : List Text) (progress : Progress) :
    search.visitAll depth (names.map (Reference.mk kind)) progress =
      ((fun found => found.flatten.map Part.block) <$>
        names.mapM (search.handle depth kind)).run.run progress := by
  induction names generalizing progress with
  | nil => rfl
  | cons name rest ih =>
    rw [List.map_cons, visitAll, visitReference_eq_run_handle, run_map, List.mapM_cons, map_bind,
      run_bind]
    rcases (search.handle depth kind name).run.run progress with ⟨failure | parts, progress⟩
    · rfl
    · dsimp only
      rw [ih, run_map, map_bind, run_bind]
      rcases (rest.mapM (search.handle depth kind)).run.run progress with ⟨failure | found, progress⟩
      · rfl
      · simp only [map_pure, List.flatten_cons, List.map_append]
        rfl

theorem visitAll_eq_run_handleAll (search : Search) (depth : Nat) (references : References)
    (progress : Progress) :
    search.visitAll depth references.toList progress =
      (List.map Part.block <$> search.handleAll depth references).run.run progress := by
  unfold handleAll References.toList
  rw [visitAll_append, visitAll_map_eq_run_mapM, run_map, map_bind, run_bind]
  rcases (references.templates.mapM (search.handle depth .template)).run.run progress with
    ⟨failure | fromTemplates, progress⟩
  · rfl
  · dsimp only
    rw [visitAll_map_eq_run_mapM, run_map, map_bind, run_bind]
    rcases (references.layouts.mapM (search.handle depth .layout)).run.run progress with
      ⟨failure | fromLayouts, progress⟩
    · rfl
    · simp only [map_pure, List.map_append]
      rfl

/-! ## The whole search -/

/-- What is on top of a stack is drained before what is below. -/
theorem drain_append (search : Search) (stack more : List Block) (progress : Progress) :
    search.drain (stack ++ more) progress =
      match search.drain stack progress with
      | (.error failure, progress) => (.error failure, progress)
      | (.ok (), progress) => search.drain more progress := by
  fun_induction Search.drain search stack progress with
  | case1 progress => rfl
  | case2 progress block rest failure after hvisit => rw [List.cons_append, drain_cons, hvisit]
  | case3 progress block rest blocks after hvisit ih =>
    rw [List.cons_append, drain_cons, hvisit]
    dsimp only
    rw [← List.append_assoc, ih]

theorem drain_eq_run_forM (room : Nat) {depth : Nat}
    (hroom : search.config.maxResolveDepth - depth ≤ room) (parts : List (Part search depth))
    (progress : Progress) :
    search.drain (parts.map Part.block) progress =
      (forM parts fun part =>
        search.descend (depth + 1) (References.scan part.text)).run.run progress := by
  -- The first induction is on how far the limit is, the second one on the parts of one level.
  induction room generalizing depth progress with
  | zero =>
    cases parts with
    | nil => exact drain_nil search progress
    | cons part rest =>
      have := part.room
      omega
  | succ room ihroom =>
    induction parts generalizing progress with
    | nil => exact drain_nil search progress
    | cons part rest ih =>
      rw [List.map_cons, drain_cons, List.forM_cons, run_bind, descend, run_bind, visit]
      simp only [Part.block]
      rw [visitAll_eq_run_handleAll, run_map]
      rcases (search.handleAll (depth + 1) (References.scan part.text)).run.run progress with
        ⟨failure | found, progress⟩
      · rfl
      · dsimp only
        rw [drain_append, ← ihroom (by omega)]
        rcases search.drain (found.map Part.block) _ with ⟨failure | _, progress⟩
        · rfl
        · exact ih progress

/-- The search and the recursion have the same outcome and leave the same registry, the same flag
and the same lookups behind, also where they fail. -/
theorem resolve_eq_descend (search : Search) (content : Text) (given : Given)
    (progress : Progress) :
    search.resolve content given progress =
      (search.descend 0 (given.references content)).run.run progress := by
  rw [resolve, descend, run_bind, visitAll_eq_run_handleAll, run_map]
  rcases (search.handleAll 0 (given.references content)).run.run progress with
    ⟨failure | parts, progress⟩
  · rfl
  · exact drain_eq_run_forM _ (Nat.le_refl _) parts progress

end ViewBuilder.Search
