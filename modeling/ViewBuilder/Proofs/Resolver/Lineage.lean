import Mathlib.Data.Finset.Card
import ViewBuilder.Proofs.Registry.Shape
import ViewBuilder.Proofs.Resolver.Reach

/-!
# How a search gets deep

A block at some depth came about through as many fragments, one in the other, which were all stored
on the way and are all different, for what is stored is not looked into again. So a search that is
stopped at the depth limit has gone through more fragments than the limit allows, and a source that
knows no more than that never gets there, whatever its fragments refer to.
-/

namespace ViewBuilder.Search

variable {config : Config} {source : AliasSource} {view : Text} {start registry : Registry}
  {top chain references : List Reference} {reference : Reference} {path : RegistryPath}
  {fragment : Fragment} {depth : Nat}

/-! ## Chains of fragments -/

/-- A reference stands at the top, or in the fragment of the latest reference in a chain. -/
def Follows (source : AliasSource) (view : Text) (top : List Reference) :
    List Reference → Reference → Prop
  | [], reference => reference ∈ top
  | parent :: _, reference =>
    ∃ fragment, parent.fragment? source view = some fragment ∧ reference ∈ fragment.references

/-- References that lead from the top from one fragment to the next, the latest first. -/
inductive Line (source : AliasSource) (view : Text) (top : List Reference) :
    List Reference → Prop where
  | nil : Line source view top []
  | cons {chain : List Reference} {reference : Reference} :
      Line source view top chain → Follows source view top chain reference →
      Line source view top (reference :: chain)

/-- The fragment of a reference is at its place. -/
def Stored (config : Config) (source : AliasSource) (view : Text) (registry : Registry)
    (reference : Reference) : Prop :=
  ∃ fragment path, reference.fragment? source view = some fragment ∧
    (ofSource config source view).path reference = .ok path ∧
    registry.get? path = some fragment.toJson

theorem Stored.present (h : Stored config source view registry reference) :
    (ofSource config source view).Present registry reference := by
  obtain ⟨fragment, path, -, hpath, hget⟩ := h
  exact ⟨path, hpath, Registry.has_of_get? hget rfl⟩

theorem Stored.isSome (h : Stored config source view registry reference) :
    (reference.fragment? source view).isSome = true := by
  obtain ⟨fragment, -, hfragment, -⟩ := h
  exact Option.isSome_of_eq_some hfragment

/-- Fragments that a search has stored, different ones, each found in the one before. -/
structure Lineage (config : Config) (source : AliasSource) (view : Text) (start : Registry)
    (top : List Reference) (registry : Registry) (chain : List Reference) : Prop where
  nodup : chain.Nodup
  line : Line source view top chain
  fresh : ∀ reference ∈ chain, ¬ (ofSource config source view).Present start reference
  stored : ∀ reference ∈ chain, Stored config source view registry reference

theorem lineage_nil : Lineage config source view start top registry [] where
  nodup := .nil
  line := .nil
  fresh := nofun
  stored := nofun

/-! ## Storing one more -/

theorem stored_store (hpath : (ofSource config source view).path reference = .ok path)
    (hfragment : reference.fragment? source view = some fragment) :
    Stored config source view
      ((ofSource config source view).store registry path reference fragment) reference :=
  ⟨fragment, path, hfragment, hpath, get?_store hpath (.inl hpath)⟩

/-- Another reference has another place. -/
theorem get?_store_of_ne {other : Reference} {place : RegistryPath}
    (hpath : (ofSource config source view).path reference = .ok path)
    (hplace : (ofSource config source view).path other = .ok place) (hne : reference ≠ other) :
    ((ofSource config source view).store registry path reference fragment).get? place =
      registry.get? place := by
  refine get?_store_of_not_writes hpath hplace fun hwrites => ?_
  obtain ⟨_, hreference⟩ := hwrites.exists_pathFor
  exact hne (eq_of_pathFor hreference hplace).2.1

theorem Stored.store {other : Reference}
    (h : Stored config source view registry other)
    (hpath : (ofSource config source view).path reference = .ok path)
    (hfragment : reference.fragment? source view = some fragment) :
    Stored config source view
      ((ofSource config source view).store registry path reference fragment) other := by
  by_cases hsame : reference = other
  · rw [← hsame]
    exact stored_store hpath hfragment
  · obtain ⟨otherFragment, place, hother, hplace, hget⟩ := h
    refine ⟨otherFragment, place, hother, hplace, ?_⟩
    rw [get?_store_of_ne hpath hplace hsame, hget]

theorem Present.store {other : Reference}
    (h : (ofSource config source view).Present registry other)
    (hpath : (ofSource config source view).path reference = .ok path)
    (hfragment : reference.fragment? source view = some fragment) :
    (ofSource config source view).Present
      ((ofSource config source view).store registry path reference fragment) other := by
  by_cases hsame : reference = other
  · rw [← hsame]
    exact (stored_store hpath hfragment).present
  · refine (present_congr fun place hplace => ?_).1 h
    exact (get?_store_of_ne hpath hplace hsame).symm

theorem Lineage.store (h : Lineage config source view start top registry chain)
    (hpath : (ofSource config source view).path reference = .ok path)
    (hfragment : reference.fragment? source view = some fragment) :
    Lineage config source view start top
      ((ofSource config source view).store registry path reference fragment) chain where
  nodup := h.nodup
  line := h.line
  fresh := h.fresh
  stored other hmem := (h.stored other hmem).store hpath hfragment

/-- What is stored now was not there, so it is not in the chain either. -/
theorem Lineage.cons (h : Lineage config source view start top registry chain)
    (hfollows : Follows source view top chain reference)
    (hpath : (ofSource config source view).path reference = .ok path)
    (habsent : registry.has path = false)
    (hfragment : reference.fragment? source view = some fragment)
    (hkept : ∀ other, (ofSource config source view).Present start other →
      (ofSource config source view).Present registry other) :
    Lineage config source view start top
      ((ofSource config source view).store registry path reference fragment)
      (reference :: chain) := by
  have hnot := not_present hpath habsent
  constructor
  case nodup =>
    exact List.nodup_cons.2 ⟨fun hmem => hnot (h.stored reference hmem).present, h.nodup⟩
  case line => exact h.line.cons hfollows
  case fresh =>
    intro other hmem
    rcases List.mem_cons.1 hmem with rfl | hmem
    · exact fun hstart => hnot (hkept other hstart)
    · exact h.fresh other hmem
  case stored =>
    intro other hmem
    rcases List.mem_cons.1 hmem with rfl | hmem
    · exact stored_store hpath hfragment
    · exact (h.stored other hmem).store hpath hfragment

/-! ## Every block has a lineage -/

/-- How a search has come to references at some depth: by one fragment for each level. -/
def Traced (config : Config) (source : AliasSource) (view : Text) (start : Registry)
    (top : List Reference) (registry : Registry) (depth : Nat) (references : List Reference) :
    Prop :=
  ∃ chain, chain.length = depth ∧ depth ≤ config.maxResolveDepth ∧
    Lineage config source view start top registry chain ∧
    ∀ reference ∈ references, Follows source view top chain reference

/-- What is known of a search between two references: how it has come to all that is left. -/
structure Tracing (config : Config) (source : AliasSource) (view : Text) (start : Registry)
    (top : List Reference) (depth : Nat) (left : List Reference) (waiting : List Block)
    (registry : Registry) : Prop where
  kept : ∀ reference, (ofSource config source view).Present start reference →
    (ofSource config source view).Present registry reference
  here : Traced config source view start top registry depth left
  later : ∀ block ∈ waiting,
    Traced config source view start top registry block.depth block.references

theorem Traced.tail {left : List Reference}
    (h : Traced config source view start top registry depth (reference :: left)) :
    Traced config source view start top registry depth left := by
  obtain ⟨chain, hlength, hlimit, hlineage, hfollows⟩ := h
  exact ⟨chain, hlength, hlimit, hlineage,
    fun other hmem => hfollows other (List.mem_cons_of_mem _ hmem)⟩

theorem Traced.store (h : Traced config source view start top registry depth references)
    (hpath : (ofSource config source view).path reference = .ok path)
    (hfragment : reference.fragment? source view = some fragment) :
    Traced config source view start top
      ((ofSource config source view).store registry path reference fragment) depth references := by
  obtain ⟨chain, hlength, hlimit, hlineage, hfollows⟩ := h
  exact ⟨chain, hlength, hlimit, hlineage.store hpath hfragment, hfollows⟩

/-- The parts of a fragment that is stored are one level deeper. -/
theorem Traced.child {left : List Reference} {part : Text}
    (h : Traced config source view start top registry depth (reference :: left))
    (hpath : (ofSource config source view).path reference = .ok path)
    (habsent : registry.has path = false)
    (hfragment : reference.fragment? source view = some fragment)
    (hkept : ∀ other, (ofSource config source view).Present start other →
      (ofSource config source view).Present registry other)
    (hpart : part ∈ fragment.parts) (hroom : depth + 1 ≤ config.maxResolveDepth) :
    Traced config source view start top
      ((ofSource config source view).store registry path reference fragment) (depth + 1)
      (References.scan part).toList := by
  obtain ⟨chain, hlength, -, hlineage, hfollows⟩ := h
  have hhere := hfollows reference List.mem_cons_self
  refine ⟨reference :: chain, congrArg (· + 1) hlength, hroom,
    hlineage.cons hhere hpath habsent hfragment hkept, fun other hmem => ?_⟩
  exact ⟨fragment, hfragment, Fragment.mem_references_iff.2 ⟨part, hpart, hmem⟩⟩

theorem kept_tracing (config : Config) (source : AliasSource) (view : Text) (start : Registry)
    (top : List Reference) :
    Kept (ofSource config source view) fun depth left waiting progress =>
      Tracing config source view start top depth left waiting progress.registry := by
  constructor
  case visit =>
    intro depth reference left waiting more blocks progress after h hvisit
    have hleft := h.here.tail
    -- Where nothing is stored, no block comes in.
    have hskip : Tracing config source view start top depth left (waiting ++ [] ++ more)
        progress.registry := by
      rw [List.append_nil]
      exact ⟨h.kept, hleft, h.later⟩
    generalize hout : Except.ok blocks = outcome at hvisit
    cases hvisit with
    | noPath _ => cases hout
    | present _ _ =>
      cases hout
      exact hskip
    | unknown _ _ _ =>
      cases hout
      exact hskip
    | @stored path fragment hpath habsent hlookup =>
      rw [lookup?_ofSource] at hlookup
      obtain ⟨rfl, hroom⟩ := children_eq_ok hout.symm
      refine ⟨fun other hother => (h.kept other hother).store hpath hlookup,
        hleft.store hpath hlookup, fun block hmem => ?_⟩
      have hcases : block ∈ waiting ++ more ∨
          block ∈ fragment.parts.map fun part => ⟨part, depth + 1⟩ := by
        simp only [List.mem_append] at hmem ⊢
        tauto
      rcases hcases with hbefore | hchild
      · exact (h.later block hbefore).store hpath hlookup
      · have hlimit := (hroom block hchild).2
        obtain ⟨part, hpart, rfl⟩ := List.mem_map.1 hchild
        exact h.here.child hpath habsent hlookup h.kept hpart hlimit
  case descend =>
    intro depth block rest progress h
    exact ⟨h.kept, h.later block List.mem_cons_self,
      fun other hmem => h.later other (List.mem_cons_of_mem _ hmem)⟩

/-! ## The depth limit -/

/-- A search that stops at the depth limit has stored a chain of different fragments that is longer
than the limit by one. The last of them is the one that it stops at. -/
theorem exists_lineage_of_depthExceeded {content text : Text} {given : Given}
    {before after : Progress} {limit : Nat}
    (h : (ofSource config source view).resolve content given before =
      (.error (.depthExceeded text depth limit), after)) :
    limit = config.maxResolveDepth ∧ depth = limit + 1 ∧
      ∃ last chain path fragment, (last :: chain).length = depth ∧
        Lineage config source view before.registry (given.references content).toList
          after.registry (last :: chain) ∧
        (ofSource config source view).path last = .ok path ∧ path.text = text ∧
        last.fragment? source view = some fragment ∧ fragment.parts ≠ [] := by
  have hstart : Tracing config source view before.registry (given.references content).toList 0
      (given.references content).toList [] before.registry :=
    ⟨fun _ hpresent => hpresent, ⟨[], rfl, Nat.zero_le _, lineage_nil, fun _ hmem => hmem⟩, nofun⟩
  obtain ⟨_, last, left, waiting, progress, htracing, hvisit⟩ :=
    (kept_tracing config source view before.registry _).resolve hstart h
  obtain ⟨chain, rfl, hlimit, hlineage, hfollows⟩ := htracing.here
  generalize hout : Except.error (Failure.depthExceeded text depth limit) = outcome at hvisit
  cases hvisit with
  | noPath hpath =>
    obtain rfl := Except.error.inj hout
    obtain ⟨_, _, hinvalid⟩ := invalidPath_of_pathFor hpath
    cases hinvalid
  | present _ _ => cases hout
  | unknown _ _ _ => cases hout
  | @stored path fragment hpath habsent hlookup =>
    rw [lookup?_ofSource] at hlookup
    obtain ⟨hfailure, hparts, hroom⟩ := children_eq_error hout.symm
    obtain ⟨rfl, rfl, rfl⟩ := Failure.depthExceeded.inj hfailure
    have hroom' : config.maxResolveDepth < chain.length + 1 := hroom
    refine ⟨rfl, ?_, last, chain, path, fragment, rfl, ?_, hpath, rfl, hlookup, hparts⟩
    · change chain.length + 1 = config.maxResolveDepth + 1
      omega
    · exact hlineage.cons (hfollows last List.mem_cons_self) hpath habsent hlookup htracing.kept

/-- A source that knows no more references of a view than the limit has levels never leads a search
to the limit, however its fragments refer to each other. -/
theorem resolve_ne_depthExceeded (config : Config) (source : AliasSource) (view : Text)
    (known : Finset Reference)
    (hknown : ∀ reference, (source reference.kind reference.name view).isSome = true →
      reference ∈ known)
    (hlimit : known.card ≤ config.maxResolveDepth) (content : Text) (given : Given)
    (before : Progress) (text : Text) (depth limit : Nat) :
    ((ofSource config source view).resolve content given before).1 ≠
      .error (.depthExceeded text depth limit) := by
  intro houtcome
  obtain ⟨rfl, rfl, last, chain, -, -, hlength, hlineage, -⟩ :=
    exists_lineage_of_depthExceeded (Prod.ext houtcome rfl)
  have hsub : (last :: chain).toFinset ⊆ known := fun reference hmem =>
    hknown reference (hlineage.stored reference (List.mem_toFinset.1 hmem)).isSome
  have hcard := Finset.card_le_card hsub
  rw [List.toFinset_card_of_nodup hlineage.nodup, hlength] at hcard
  omega

theorem mem_of_knot {reference : Reference}
    (h : (knot reference.kind reference.name "v").isSome = true) :
    reference ∈ ({⟨.template, "t"⟩, ⟨.layout, "l"⟩} : Finset Reference) := by
  obtain ⟨kind, name⟩ := reference
  obtain ⟨fragment, hfragment⟩ := Option.isSome_iff_exists.1 h
  have hentry : ((kind, name), fragment) ∈
      [((.template, "t".toList), _), ((.layout, "l".toList), _)] := Entries.mem_of_get? hfragment
  rcases List.mem_cons.1 hentry with hfirst | hsecond
  · cases hfirst
    decide
  · cases List.mem_singleton.1 hsecond
    decide

/-- Two fragments that refer to each other and to themselves need two levels. -/
theorem resolve_knot_ne_depthExceeded :
    ({⟨.template, "t"⟩, ⟨.layout, "l"⟩} : Finset Reference).card ≤ 2 ∧
      ∀ text depth limit, ((ofSource { langPrefix := "COM_X", maxResolveDepth := 2 } knot
        "v").resolve "$this->loadTemplate('t')" {} ⟨.empty, false, []⟩).1 ≠
          .error (.depthExceeded text depth limit) :=
  have hcard : ({⟨.template, "t"⟩, ⟨.layout, "l"⟩} : Finset Reference).card ≤ 2 := by decide
  ⟨hcard, resolve_ne_depthExceeded _ knot "v" _ (fun _ => mem_of_knot) hcard _ _ _⟩

example : ((ofSource { langPrefix := "COM_X", maxResolveDepth := 1 } knot "v").resolveWithin 2
    "$this->loadTemplate('t')" {} ⟨.empty, false, []⟩).map (·.1) =
      some (.error (.depthExceeded "builder.layout_data.admin.l" 2 1)) := by
  decide +kernel

end ViewBuilder.Search
