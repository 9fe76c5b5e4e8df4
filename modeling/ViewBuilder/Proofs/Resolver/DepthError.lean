import Mathlib.Data.List.Chain
import ViewBuilder.Proofs.Resolver.Lineage

/-!
# What the depth error tells

The depth error names a place, a depth and the limit. Behind it stands a chain of fragments, from a
top reference to the one whose place is named, as long as the depth says. The search had none of
them when it began, and has all of them when it stops.
-/

namespace ViewBuilder.Search

variable {config : Config} {source : AliasSource} {view : Text} {top chain : List Reference}

/-! ## Chains from the top on -/

/-- The fragment of the one reference refers to the other. -/
def Leads (source : AliasSource) (view : Text) (parent reference : Reference) : Prop :=
  ∃ fragment, parent.fragment? source view = some fragment ∧ reference ∈ fragment.references

theorem Line.exists_top (h : Line source view top chain) (hne : chain ≠ []) :
    ∃ first ∈ chain.getLast?, first ∈ top := by
  induction h with
  | nil => exact absurd rfl hne
  | @cons chain reference hline hfollows ih =>
    cases chain with
    | nil => exact ⟨reference, rfl, hfollows⟩
    | cons parent rest =>
      rw [List.getLast?_cons_cons]
      exact ih (List.cons_ne_nil _ _)

theorem Line.isChain (h : Line source view top chain) :
    chain.IsChain fun reference parent => Leads source view parent reference := by
  induction h with
  | nil => exact .nil
  | @cons chain reference hline hfollows ih =>
    refine ih.cons fun parent hparent => ?_
    cases chain with
    | nil => cases hparent
    | cons latest rest =>
      obtain rfl := Option.some.inj hparent
      exact hfollows

theorem exists_not_allBlank_of_parts {fragment : Fragment} (h : fragment.parts ≠ []) :
    Text.allBlank fragment.html = false ∨ Text.allBlank fragment.phpView = false := by
  obtain ⟨part, hpart⟩ := List.exists_mem_of_ne_nil _ h
  obtain ⟨hmem, hblank⟩ := List.mem_filter.1 hpart
  rw [Bool.not_eq_true'] at hblank
  simp only [List.mem_cons, List.not_mem_nil, or_false] at hmem
  rcases hmem with rfl | rfl
  · exact .inl hblank
  · exact .inr hblank

/-! ## The error -/

/-- A search that ends in the depth error says its limit, a depth that is greater by one, and the
place of the last reference in a chain of that many different ones. The chain begins at the top, and
each reference in it stands in the fragment of the one before. Nothing was stored for any of them at
the start and each is stored at the end, and the fragment of the last one is not blank. -/
theorem exists_chain_of_depthExceeded (config : Config) (source : AliasSource)
    (view content text : Text) (given : Given) (before after : Progress) (depth limit : Nat)
    (h : (ofSource config source view).resolve content given before =
      (.error (.depthExceeded text depth limit), after)) :
    limit = config.maxResolveDepth ∧ depth = config.maxResolveDepth + 1 ∧
      ∃ chain : List Reference, chain.length = depth ∧ chain.Nodup ∧
        (∃ first ∈ chain.head?, first ∈ (given.references content).toList) ∧
        chain.IsChain (Leads source view) ∧
        (∀ reference ∈ chain,
          ¬ (ofSource config source view).Present before.registry reference ∧
          Stored config source view after.registry reference) ∧
        ∃ last ∈ chain.getLast?, ∃ fragment path,
          source last.kind last.name view = some fragment ∧
          (Text.allBlank fragment.html = false ∨ Text.allBlank fragment.phpView = false) ∧
          (ofSource config source view).path last = .ok path ∧ path.text = text := by
  obtain ⟨rfl, rfl, last, chain, path, fragment, hlength, hlineage, hpath, htext, hfragment,
    hparts⟩ := exists_lineage_of_depthExceeded h
  -- The lineage goes up from the last reference, the chain of the error down to it.
  refine ⟨rfl, rfl, (last :: chain).reverse, ?_, ?_, ?_, ?_, fun reference hmem => ?_, last, ?_,
    fragment, path, hfragment, exists_not_allBlank_of_parts hparts, hpath, htext⟩
  · rw [List.length_reverse, hlength]
  · exact List.nodup_reverse.2 hlineage.nodup
  · rw [List.head?_reverse]
    exact hlineage.line.exists_top (List.cons_ne_nil _ _)
  · exact List.isChain_reverse.2 hlineage.line.isChain
  · rw [List.mem_reverse] at hmem
    exact ⟨hlineage.fresh reference hmem, hlineage.stored reference hmem⟩
  · rw [List.getLast?_reverse]
    rfl

/-- A search of the knot goes through both of its fragments when one level is allowed. -/
theorem exists_chain_of_knot : ∃ (after : Progress) (chain : List Reference),
    (ofSource { langPrefix := "COM_X", maxResolveDepth := 1 } knot "v").resolve
        "$this->loadTemplate('t')" {} ⟨.empty, false, []⟩ =
      (.error (.depthExceeded "builder.layout_data.admin.l" 2 1), after) ∧
    chain.length = 2 ∧ chain.Nodup ∧ chain.IsChain (Leads knot "v") ∧
    ∀ reference ∈ chain,
      Stored { langPrefix := "COM_X", maxResolveDepth := 1 } knot "v" after.registry reference := by
  have hends : ((ofSource { langPrefix := "COM_X", maxResolveDepth := 1 } knot "v").resolveWithin 2
      "$this->loadTemplate('t')" {} ⟨.empty, false, []⟩).map (·.1) =
        some (.error (.depthExceeded "builder.layout_data.admin.l" 2 1)) := by
    decide +kernel
  obtain ⟨⟨outcome, after⟩, hwithin, houtcome⟩ := Option.map_eq_some_iff.1 hends
  obtain rfl : outcome = _ := houtcome
  have h := resolve_eq_of_resolveWithin hwithin
  obtain ⟨-, -, chain, hlength, hnodup, -, hchain, hall, -⟩ :=
    exists_chain_of_depthExceeded _ _ _ _ _ _ _ _ _ _ h
  exact ⟨after, chain, h, hlength, hnodup, hchain, fun reference hmem => (hall reference hmem).2⟩

end ViewBuilder.Search
