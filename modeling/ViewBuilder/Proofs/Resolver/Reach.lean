import ViewBuilder.Proofs.Resolver.Visit

/-!
# What a search reaches

A search that asks a source with fixed answers stores exactly the fragments that can be reached:
those of the top references, and those of the references in what is reached, each unless something
is stored for it already. The registry is the set of visited references and changes on the way;
`Reaching` says how far it is from what it was.
-/

namespace ViewBuilder

/-! ## What fragments refer to -/

/-- What a source has for a reference of a view. -/
def Reference.fragment? (reference : Reference) (source : AliasSource) (view : Text) :
    Option Fragment :=
  source reference.kind reference.name view

def Fragment.references (fragment : Fragment) : List Reference :=
  (References.scan fragment.html).toList ++ (References.scan fragment.phpView).toList

theorem CallShape.scan_eq_nil_of_allBlank {shape : CallShape} {t : Text}
    (ht : Text.allBlank t = true) (hs : ∃ c ∈ shape.opening, Text.isBlank c = false) :
    shape.scan t = [] := by
  have hcut : Text.cut? shape.opening t = none := by
    cases hc : Text.cut? shape.opening t with
    | none => rfl
    | some found =>
      obtain ⟨c, hc', hb⟩ := hs
      have hmem : c ∈ t := by
        rw [Text.eq_of_cut? hc]
        simp [hc']
      rw [Text.allBlank, List.all_eq_true] at ht
      rw [ht c hmem] at hb
      cases hb
  rw [scan, names.eq_def]
  split
  · rfl
  · rename_i h
    rw [hcut] at h
    cases h

theorem References.toList_scan_of_allBlank {t : Text} (ht : Text.allBlank t = true) :
    (References.scan t).toList = [] := by
  have hj : ∃ c ∈ CallShape.layoutSingle.opening, Text.isBlank c = false := ⟨'J', by decide⟩
  have hj' : ∃ c ∈ CallShape.layoutDouble.opening, Text.isBlank c = false := ⟨'J', by decide⟩
  have ht' : ∃ c ∈ CallShape.templateSingle.opening, Text.isBlank c = false := ⟨'$', by decide⟩
  have ht'' : ∃ c ∈ CallShape.templateDouble.opening, Text.isBlank c = false := ⟨'$', by decide⟩
  simp [References.scan, toList, CallShape.scan_eq_nil_of_allBlank ht, hj, hj', ht', ht'']

/-- Leaving blank parts out leaves no reference out. -/
theorem Fragment.mem_references_iff {fragment : Fragment} {reference : Reference} :
    reference ∈ fragment.references ↔
      ∃ part ∈ fragment.parts, reference ∈ (References.scan part).toList := by
  have hblank : ∀ part, reference ∈ (References.scan part).toList → Text.allBlank part = false := by
    intro part hr
    cases hb : Text.allBlank part with
    | false => rfl
    | true =>
      rw [References.toList_scan_of_allBlank hb] at hr
      cases hr
  simp only [references, List.mem_append, parts, List.mem_filter, Bool.not_eq_true',
    List.mem_cons, List.not_mem_nil, or_false]
  constructor
  · rintro (hr | hr)
    · exact ⟨_, ⟨.inl rfl, hblank _ hr⟩, hr⟩
    · exact ⟨_, ⟨.inr rfl, hblank _ hr⟩, hr⟩
  · rintro ⟨part, ⟨rfl | rfl, -⟩, hr⟩
    · exact .inl hr
    · exact .inr hr

namespace Search

/-! ## What can be reached -/

/-- The search of a view that asks a source. -/
def ofSource (config : Config) (source : AliasSource) (view : Text) : Search :=
  ⟨config, source, view⟩

@[simp] theorem lookup?_ofSource (config : Config) (source : AliasSource) (view : Text)
    (past : List Reference) (reference : Reference) :
    (ofSource config source view).lookup? past reference = reference.fragment? source view := rfl

/-- Something is stored at the place of a reference. -/
def Present (search : Search) (registry : Registry) (reference : Reference) : Prop :=
  ∃ path, search.path reference = .ok path ∧ registry.has path = true

theorem present_congr {search : Search} {registry other : Registry} {reference : Reference}
    (h : ∀ path, search.path reference = .ok path → registry.get? path = other.get? path) :
    search.Present registry reference ↔ search.Present other reference := by
  constructor
  · rintro ⟨path, hpath, hhas⟩
    rw [Registry.has_eq_of_get?_eq (h path hpath)] at hhas
    exact ⟨path, hpath, hhas⟩
  · rintro ⟨path, hpath, hhas⟩
    rw [← Registry.has_eq_of_get?_eq (h path hpath)] at hhas
    exact ⟨path, hpath, hhas⟩

theorem not_present {search : Search} {registry : Registry} {reference : Reference}
    {path : RegistryPath} (hpath : search.path reference = .ok path)
    (habsent : registry.has path = false) : ¬ search.Present registry reference := by
  rintro ⟨other, hother, hhas⟩
  obtain rfl := Except.ok.inj (hpath.symm.trans hother)
  rw [habsent] at hhas
  cases hhas

/-- The references that a search has to store when it begins with a registry and top references. -/
inductive Reached (config : Config) (source : AliasSource) (view : Text) (start : Registry)
    (top : List Reference) : Reference → Prop where
  | top {reference : Reference} :
      reference ∈ top → ¬ (ofSource config source view).Present start reference →
      (reference.fragment? source view).isSome = true →
      Reached config source view start top reference
  | part {parent reference : Reference} {fragment : Fragment} :
      Reached config source view start top parent →
      parent.fragment? source view = some fragment → reference ∈ fragment.references →
      ¬ (ofSource config source view).Present start reference →
      (reference.fragment? source view).isSome = true →
      Reached config source view start top reference

variable {config : Config} {source : AliasSource} {view : Text} {start : Registry}
  {top : List Reference}

/-- Where something is reached, a top reference is known. -/
theorem Reached.exists_top {reference : Reference}
    (h : Reached config source view start top reference) :
    ∃ first ∈ top, (first.fragment? source view).isSome = true := by
  induction h with
  | top hmem _ hknown => exact ⟨_, hmem, hknown⟩
  | part _ _ _ _ _ ih => exact ih

/-- A top reference, or one in a fragment of one of these parents. -/
def Referred (source : AliasSource) (view : Text) (top : List Reference)
    (parents : Reference → Prop) (reference : Reference) : Prop :=
  reference ∈ top ∨ ∃ parent fragment, parents parent ∧
    parent.fragment? source view = some fragment ∧ reference ∈ fragment.references

theorem Referred.reached {reference : Reference}
    (h : Referred source view top (Reached config source view start top) reference)
    (habsent : ¬ (ofSource config source view).Present start reference)
    (hknown : (reference.fragment? source view).isSome = true) :
    Reached config source view start top reference := by
  rcases h with hmem | ⟨parent, fragment, hparent, hfragment, hmem⟩
  · exact .top hmem habsent hknown
  · exact .part hparent hfragment hmem habsent hknown

/-! ## How far a search is -/

/-- A reference is still to be visited. -/
def Pending (left : List Reference) (waiting : List Block) (reference : Reference) : Prop :=
  reference ∈ left ∨ ∃ block ∈ waiting, reference ∈ block.references

/-- The registry of a search that has stored the fragments of `done`, for which nothing was there,
and has `left` and `waiting` still to visit. -/
structure Reaching (config : Config) (source : AliasSource) (view : Text) (start : Registry)
    (top : List Reference) (done left : List Reference) (waiting : List Block)
    (registry : Registry) : Prop where
  reached : ∀ reference ∈ done, Reached config source view start top reference
  filled : ∀ reference ∈ done, ∃ fragment path, reference.fragment? source view = some fragment ∧
    (ofSource config source view).path reference = .ok path ∧
    ∀ written, (ofSource config source view).Writes reference written →
      registry.get? written = some fragment.toJson
  frame : ∀ path, (∀ reference ∈ done, ∀ written,
      (ofSource config source view).Writes reference written → written.Diverges path) →
    registry.get? path = start.get? path
  referred : ∀ reference, Pending left waiting reference →
    Referred source view top (Reached config source view start top) reference
  covered : ∀ reference, Referred source view top (· ∈ done) reference →
    (ofSource config source view).Present start reference ∨
      reference.fragment? source view = none ∨ reference ∈ done ∨ Pending left waiting reference

section
variable {done left : List Reference} {waiting : List Block} {registry : Registry}

/-- A search changes nothing for a reference that it does not store, and nothing for the templates
of other views. -/
theorem Reaching.get?_eq (h : Reaching config source view start top done left waiting registry)
    {other : Text} {reference : Reference} {path : RegistryPath}
    (hpath : (ofSource config source other).path reference = .ok path)
    (hnew : reference ∈ done → reference.kind = .template ∧ view ≠ other) :
    registry.get? path = start.get? path := by
  apply h.frame
  intro stored hstored written hwritten
  obtain ⟨target, hwritten⟩ := hwritten.exists_pathFor
  refine diverges_of_pathFor hwritten hpath fun _ he => ?_
  subst he
  exact hnew hstored

/-- Something is there for a view exactly when it was there before or was stored on the way. -/
theorem Reaching.present_iff_of_view
    (h : Reaching config source view start top done left waiting registry) {other : Text}
    {reference : Reference} :
    (ofSource config source other).Present registry reference ↔
      (ofSource config source other).Present start reference ∨
        (reference ∈ done ∧ (reference.kind = .template → other = view)) := by
  by_cases hdone : reference ∈ done ∧ (reference.kind = .template → other = view)
  · obtain ⟨hmem, hview⟩ := hdone
    obtain ⟨fragment, path, -, hpath, hget⟩ := h.filled reference hmem
    have hother : (ofSource config source other).path reference = .ok path := by
      rw [← hpath]
      obtain ⟨kind, name⟩ := reference
      cases kind with
      | template => rw [hview rfl]
      | layout => rfl
    have hhas := Registry.has_of_get? (hget path (.inl hpath)) rfl
    exact ⟨fun _ => .inr ⟨hmem, hview⟩, fun _ => ⟨path, hother, hhas⟩⟩
  · simp only [hdone, or_false]
    refine present_congr fun path hpath => h.get?_eq hpath fun hmem => ?_
    by_contra hview
    exact hdone ⟨hmem, fun hk => by_contra fun hne => hview ⟨hk, Ne.symm hne⟩⟩

theorem Reaching.present_iff (h : Reaching config source view start top done left waiting registry)
    {reference : Reference} :
    (ofSource config source view).Present registry reference ↔
      (ofSource config source view).Present start reference ∨ reference ∈ done := by
  rw [h.present_iff_of_view]
  simp

theorem Pending.visit {reference other : Reference} {more blocks : List Block}
    (h : Pending (reference :: left) (waiting ++ more) other) :
    other = reference ∨ Pending left (waiting ++ blocks ++ more) other := by
  rcases h with hmem | ⟨block, hblock, hmem⟩
  · rcases List.mem_cons.1 hmem with rfl | hmem
    · exact .inl rfl
    · exact .inr (.inl hmem)
  · refine .inr (.inr ⟨block, ?_, hmem⟩)
    simp only [List.mem_append] at hblock ⊢
    tauto

theorem Pending.of_visit {reference other : Reference} {more blocks : List Block}
    (h : Pending left (waiting ++ blocks ++ more) other) :
    Pending (reference :: left) (waiting ++ more) other ∨
      ∃ block ∈ blocks, other ∈ block.references := by
  rcases h with hmem | ⟨block, hblock, hmem⟩
  · exact .inl (.inl (List.mem_cons_of_mem _ hmem))
  · simp only [List.mem_append] at hblock
    rcases hblock with (hblock | hblock) | hblock
    · exact .inl (.inr ⟨block, List.mem_append_left _ hblock, hmem⟩)
    · exact .inr ⟨block, hblock, hmem⟩
    · exact .inl (.inr ⟨block, List.mem_append_right _ hblock, hmem⟩)

theorem pending_descend_iff {block : Block} {rest : List Block} {reference : Reference} :
    Pending block.references rest reference ↔ Pending [] (block :: rest) reference := by
  simp [Pending]

/-- Nothing is stored at a reference that is there already or unknown. -/
theorem Reaching.skip {reference : Reference} {more : List Block}
    (h : Reaching config source view start top done (reference :: left) (waiting ++ more) registry)
    (hskip : (ofSource config source view).Present start reference ∨
      reference.fragment? source view = none ∨ reference ∈ done) :
    Reaching config source view start top done left (waiting ++ [] ++ more) registry where
  reached := h.reached
  filled := h.filled
  frame := h.frame
  referred other hother := by
    rcases hother.of_visit with hother | ⟨block, hblock, -⟩
    · exact h.referred other hother
    · cases hblock
  covered other hother := by
    rcases h.covered other hother with hp | hn | hd | hpending
    · exact .inl hp
    · exact .inr (.inl hn)
    · exact .inr (.inr (.inl hd))
    · rcases hpending.visit with rfl | hpending
      · tauto
      · exact .inr (.inr (.inr hpending))

/-- A fragment that is stored joins `done`, and its parts wait. -/
theorem Reaching.store {reference : Reference} {path : RegistryPath} {fragment : Fragment}
    {more blocks : List Block} {depth : Nat}
    (h : Reaching config source view start top done (reference :: left) (waiting ++ more) registry)
    (hpath : (ofSource config source view).path reference = .ok path)
    (habsent : registry.has path = false) (hfragment : reference.fragment? source view = some fragment)
    (hblocks : blocks = fragment.parts.map fun part => ⟨part, depth⟩) :
    Reaching config source view start top (reference :: done) left (waiting ++ blocks ++ more)
      ((ofSource config source view).store registry path reference fragment) := by
  have hnot := not_present hpath habsent
  rw [h.present_iff, not_or] at hnot
  obtain ⟨hstart, hdone⟩ := hnot
  have hreached : Reached config source view start top reference :=
    (h.referred reference (.inl List.mem_cons_self)).reached hstart (by simp [hfragment])
  have hparts : ∀ other, other ∈ fragment.references ↔ ∃ block ∈ blocks, other ∈ block.references := by
    intro other
    rw [Fragment.mem_references_iff, hblocks]
    simp [Block.references]
  constructor
  case reached =>
    intro other hother
    rcases List.mem_cons.1 hother with rfl | hother
    · exact hreached
    · exact h.reached other hother
  case filled =>
    intro other hother
    rcases List.mem_cons.1 hother with rfl | hother
    · exact ⟨fragment, path, hfragment, hpath, fun written hw => get?_store hpath hw⟩
    · obtain ⟨otherFragment, otherPath, hf, hp, hget⟩ := h.filled other hother
      refine ⟨otherFragment, otherPath, hf, hp, fun written hw => ?_⟩
      rw [get?_store_of_diverges hpath, hget written hw]
      intro own hown
      exact hown.diverges hw (by rintro rfl; exact hdone hother)
  case frame =>
    intro other hother
    rw [get?_store_of_diverges hpath fun written hw => hother reference List.mem_cons_self written hw]
    exact h.frame other fun old hold => hother old (List.mem_cons_of_mem _ hold)
  case referred =>
    intro other hother
    rcases hother.of_visit with hother | hother
    · exact h.referred other hother
    · exact .inr ⟨reference, fragment, hreached, hfragment, (hparts other).2 hother⟩
  case covered =>
    intro other hother
    -- Either a reference of the new fragment, or one that was covered before.
    have hcases : (∃ block ∈ blocks, other ∈ block.references) ∨
        Referred source view top (· ∈ done) other := by
      rcases hother with hmem | ⟨parent, parentFragment, hparent, hf, hmem⟩
      · exact .inr (.inl hmem)
      · rcases List.mem_cons.1 hparent with rfl | hparent
        · obtain rfl := Option.some.inj (hfragment.symm.trans hf)
          exact .inl ((hparts other).1 hmem)
        · exact .inr (.inr ⟨parent, parentFragment, hparent, hf, hmem⟩)
    rcases hcases with ⟨block, hblock, hmem⟩ | hother
    · refine .inr (.inr (.inr (.inr ⟨block, ?_, hmem⟩)))
      simp [hblock]
    · rcases h.covered other hother with hp | hn | hd | hpending
      · exact .inl hp
      · exact .inr (.inl hn)
      · exact .inr (.inr (.inl (List.mem_cons_of_mem _ hd)))
      · rcases hpending.visit with rfl | hpending
        · exact .inr (.inr (.inl List.mem_cons_self))
        · exact .inr (.inr (.inr hpending))

end

/-! ## The flag -/

/-- A reference for which something was there or that is known. -/
def Counts (config : Config) (source : AliasSource) (view : Text) (start : Registry)
    (reference : Reference) : Prop :=
  (ofSource config source view).Present start reference ∨
    (reference.fragment? source view).isSome = true

/-- What the flag says while the references in `left` are still to be visited. -/
structure Flagged (config : Config) (source : AliasSource) (view : Text) (start : Registry)
    (top : List Reference) (came : Bool) (left : List Reference) (found : Bool) : Prop where
  sound : found = true → came = true ∨ ∃ reference ∈ top, Counts config source view start reference
  kept : came = true → found = true
  complete : ∀ reference ∈ top, Counts config source view start reference →
    found = true ∨ reference ∈ left

/-- A reference that raises the flag goes back to a top reference that counts. -/
theorem Reaching.exists_counts {done left : List Reference} {waiting : List Block}
    {registry : Registry} {reference : Reference}
    (h : Reaching config source view start top done (reference :: left) waiting registry)
    (hr : (ofSource config source view).Present registry reference ∨
      (reference.fragment? source view).isSome = true) :
    ∃ first ∈ top, Counts config source view start first := by
  rcases h.referred reference (.inl List.mem_cons_self) with hmem | ⟨parent, -, hparent, -, -⟩
  · refine ⟨reference, hmem, ?_⟩
    rcases hr with hpresent | hknown
    · rcases h.present_iff.1 hpresent with hstart | hdone
      · exact .inl hstart
      · obtain ⟨fragment, -, hfragment, -⟩ := h.filled reference hdone
        exact .inr (by simp [hfragment])
    · exact .inr hknown
  · obtain ⟨first, hmem, hknown⟩ := hparent.exists_top
    exact ⟨first, hmem, .inr hknown⟩

theorem kept_reaching (config : Config) (source : AliasSource) (view : Text) (start : Registry)
    (top : List Reference) (came : Bool) :
    Kept (ofSource config source view) fun _ left waiting progress =>
      (∃ done, Reaching config source view start top done left waiting progress.registry) ∧
        Flagged config source view start top came left progress.found := by
  constructor
  case visit =>
    rintro depth reference left waiting more blocks progress after ⟨⟨done, h⟩, hf⟩ hvisit
    -- The flag may go up here, and then every top reference that counts is accounted for.
    have hraised : (∃ first ∈ top, Counts config source view start first) →
        Flagged config source view start top came left true := fun hcounts =>
      { sound := fun _ => .inr hcounts, kept := fun _ => rfl, complete := fun _ _ _ => .inl rfl }
    generalize hout : Except.ok blocks = outcome at hvisit
    cases hvisit with
    | noPath _ => cases hout
    | present hpath hhas =>
      cases hout
      have hpresent : (ofSource config source view).Present progress.registry reference :=
        ⟨_, hpath, hhas⟩
      refine ⟨⟨done, h.skip ?_⟩, hraised (h.exists_counts (.inl hpresent))⟩
      rcases h.present_iff.1 hpresent with hstart | hdone
      · exact .inl hstart
      · exact .inr (.inr hdone)
    | unknown hpath hhas hlookup =>
      cases hout
      rw [lookup?_ofSource] at hlookup
      refine ⟨⟨done, h.skip (.inr (.inl hlookup))⟩, hf.sound, hf.kept, fun first hmem hcounts => ?_⟩
      rcases hf.complete first hmem hcounts with hfound | hleft
      · exact .inl hfound
      · rcases List.mem_cons.1 hleft with rfl | hleft
        · rcases hcounts with ⟨path, hp, hstart⟩ | hknown
          · exact absurd (h.present_iff.2 (.inl ⟨path, hp, hstart⟩)) (not_present hpath hhas)
          · rw [hlookup] at hknown
            cases hknown
        · exact .inr hleft
    | @stored path fragment hpath hhas hlookup =>
      rw [lookup?_ofSource] at hlookup
      exact ⟨⟨_, h.store hpath hhas hlookup (children_eq_ok hout.symm).1⟩,
        hraised (h.exists_counts (.inr (by simp [hlookup])))⟩
  case descend =>
    rintro depth block rest progress ⟨⟨done, h⟩, hf⟩
    refine ⟨⟨done, h.reached, h.filled, h.frame, fun other hother => ?_, fun other hother => ?_⟩,
      hf.sound, hf.kept, fun first hmem hcounts => .inl ?_⟩
    · exact h.referred other (pending_descend_iff.1 hother)
    · rw [pending_descend_iff]
      exact h.covered other hother
    · exact (hf.complete first hmem hcounts).resolve_right List.not_mem_nil

/-! ## Where a search ends -/

theorem reaching_start (config : Config) (source : AliasSource) (view : Text) (start : Registry)
    (top : List Reference) : Reaching config source view start top [] top [] start where
  reached _ h := absurd h List.not_mem_nil
  filled _ h := absurd h List.not_mem_nil
  frame _ _ := rfl
  referred other h := by
    rcases h with hmem | ⟨block, hblock, -⟩
    · exact .inl hmem
    · cases hblock
  covered other h := by
    rcases h with hmem | ⟨parent, -, hparent, -⟩
    · exact .inr (.inr (.inr (.inl hmem)))
    · cases hparent

/-- When a search ends well, everything that it refers to is there or unknown. -/
theorem reaching_resolve {content : Text} {given : Given} {before after : Progress}
    (h : (ofSource config source view).resolve content given before = (.ok (), after)) :
    (∃ done, Reaching config source view before.registry (given.references content).toList done [] []
        after.registry) ∧
      Flagged config source view before.registry (given.references content).toList before.found []
        after.found := by
  have hstart : Flagged config source view before.registry (given.references content).toList
      before.found (given.references content).toList before.found :=
    { sound := .inl, kept := id, complete := fun _ hmem _ => .inr hmem }
  obtain ⟨_, hend⟩ := (kept_reaching config source view before.registry
    (given.references content).toList before.found).resolve
    ⟨⟨[], reaching_start config source view _ _⟩, hstart⟩ h
  exact hend

theorem not_pending_nil {reference : Reference} : ¬ Pending [] [] reference := by
  simp [Pending]

/-- Nothing that can be reached is left out. -/
theorem Reaching.mem_of_reached {done : List Reference} {registry : Registry}
    (h : Reaching config source view start top done [] [] registry) {reference : Reference}
    (hr : Reached config source view start top reference) : reference ∈ done := by
  have hdone : ∀ other, Referred source view top (· ∈ done) other →
      ¬ (ofSource config source view).Present start other →
      (other.fragment? source view).isSome = true → other ∈ done := by
    intro other hother habsent hknown
    rcases h.covered other hother with hp | hn | hd | hpending
    · exact absurd hp habsent
    · rw [hn] at hknown
      cases hknown
    · exact hd
    · exact absurd hpending not_pending_nil
  induction hr with
  | top hmem habsent hknown => exact hdone _ (.inl hmem) habsent hknown
  | part _ hfragment hmem habsent hknown ih =>
    exact hdone _ (.inr ⟨_, _, ih, hfragment, hmem⟩) habsent hknown

/-- A search that ends well has stored the fragment of each reference that can be reached, a layout
also on the other side when layouts are meant for both; `Registry.getAs_fragment` reads it back.
What diverges from these places is as it was. The flag is up if it was, or if some top reference was
there or is known. -/
theorem resolve_stores_reached (config : Config) (source : AliasSource) (view content : Text)
    (given : Given) (before after : Progress)
    (h : (ofSource config source view).resolve content given before = (.ok (), after)) :
    (∀ reference, Reached config source view before.registry (given.references content).toList
        reference → ∃ fragment path, source reference.kind reference.name view = some fragment ∧
          (ofSource config source view).path reference = .ok path ∧
          after.registry.get? path = some fragment.toJson) ∧
    (config.langTarget = .both → ∀ reference, Reached config source view before.registry
        (given.references content).toList reference → reference.kind = .layout →
        ∃ fragment path, source .layout reference.name view = some fragment ∧
          RegistryPath.layoutData config.buildTarget.other reference.name = .ok path ∧
          after.registry.get? path = some fragment.toJson) ∧
    (∀ path, (∀ reference, Reached config source view before.registry
        (given.references content).toList reference → ∀ written,
        (ofSource config source view).Writes reference written → written.Diverges path) →
      after.registry.get? path = before.registry.get? path) ∧
    (after.found = true ↔ before.found = true ∨ ∃ reference ∈ (given.references content).toList,
      (ofSource config source view).Present before.registry reference ∨
        (source reference.kind reference.name view).isSome = true) := by
  obtain ⟨⟨done, hend⟩, hflag⟩ := reaching_resolve h
  refine ⟨fun reference hr => ?_, fun hboth reference hr hk => ?_, fun path hd => ?_, ?_⟩
  · obtain ⟨fragment, path, hfragment, hpath, hget⟩ := hend.filled _ (hend.mem_of_reached hr)
    exact ⟨fragment, path, hfragment, hpath, hget path (.inl hpath)⟩
  · obtain ⟨fragment, path, hfragment, hpath, hget⟩ := hend.filled _ (hend.mem_of_reached hr)
    have hmirror : (ofSource config source view).mirror? reference =
        some config.buildTarget.other := mirror?_eq_some_iff.2 ⟨hk, hboth, rfl⟩
    obtain ⟨other, ho⟩ := exists_mirror_path config.buildTarget.other hpath
    have hother := hget other (.inr ⟨_, hmirror, ho⟩)
    obtain ⟨kind, name⟩ := reference
    obtain rfl : kind = .layout := hk
    exact ⟨fragment, other, hfragment, ho, hother⟩
  · apply hend.frame
    intro reference hdone
    exact hd reference (hend.reached reference hdone)
  · constructor
    · exact hflag.sound
    · rintro (hcame | ⟨reference, hmem, hcounts⟩)
      · exact hflag.kept hcame
      · exact (hflag.complete reference hmem hcounts).resolve_right List.not_mem_nil

/-- A template and a layout that refer to each other and to themselves. -/
def knot : AliasSource :=
  let calls : Text := "$this->loadTemplate('t') JLayoutHelper::render('l', $x)"
  (AliasStore.ofSet
    { templates := [⟨"t", none, ⟨calls, " "⟩⟩]
      layouts := [⟨"l", none, ⟨"<hr>", calls⟩⟩] }).find

theorem resolve_stores_knot :
    ∃ fragment after path, knot .layout "l" "v" = some fragment ∧
      (ofSource { langPrefix := "COM_X" } knot "v").resolve "$this->loadTemplate('t')" {}
        ⟨.empty, false, []⟩ = (.ok (), after) ∧
      RegistryPath.layoutData .site "l" = .ok path ∧
      after.registry.get? path = some fragment.toJson ∧ after.found = true := by
  have hends : ((ofSource { langPrefix := "COM_X" } knot "v").resolveWithin 5
      "$this->loadTemplate('t')" {} ⟨.empty, false, []⟩).any (fun result => result.1.toBool) =
      true := by decide +kernel
  rw [Option.any_eq_true] at hends
  obtain ⟨⟨_ | _, after⟩, hwithin, hok⟩ := hends
  · cases hok
  have h := resolve_eq_of_resolveWithin hwithin
  obtain ⟨-, hmirror, -, hfound⟩ := resolve_stores_reached _ _ _ _ _ _ _ h
  have habsent : ∀ reference,
      ¬ (ofSource { langPrefix := "COM_X" } knot "v").Present .empty reference := by
    simp [Present]
  have hmem : ⟨.template, "t"⟩ ∈
      (({} : Given).references "$this->loadTemplate('t')").toList := by decide +kernel
  have htop : Reached { langPrefix := "COM_X" } knot "v" .empty
      (({} : Given).references "$this->loadTemplate('t')").toList ⟨.template, "t"⟩ :=
    .top hmem (habsent _) (by decide)
  have hlayout : Reached { langPrefix := "COM_X" } knot "v" .empty
      (({} : Given).references "$this->loadTemplate('t')").toList ⟨.layout, "l"⟩ :=
    .part htop rfl (by decide +kernel) (habsent _) (by decide)
  obtain ⟨fragment, path, hfragment, hpath, hget⟩ := hmirror rfl _ hlayout rfl
  exact ⟨fragment, after, path, hfragment, h, hpath, hget,
    hfound.2 (.inr ⟨_, hmem, .inr (by decide)⟩)⟩

end Search

end ViewBuilder
