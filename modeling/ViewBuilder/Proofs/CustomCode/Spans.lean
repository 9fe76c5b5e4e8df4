import Mathlib.Data.List.Forall2
import Mathlib.Logic.Function.Iterate
import ViewBuilder.Proofs.CustomCode.Cut
import ViewBuilder.Proofs.Text.Bytes

/-!
# Where the regions stand

The search for regions as a loop over offsets in bytes. It goes on behind a region, or behind an
opening marker that nothing closes, and is over when there is no opening marker any more. The spans
that it finds are those of the pieces, they do not overlap, and an opening marker that it passes by
on the way to the next region is one that nothing closes. `Met` says which markers it comes to, by
where they stand.
-/

namespace ViewBuilder.Region

open Text MarkShape

/-! ## Spans -/

structure Marker where
  id : Text
  start : Nat
  stop : Nat
deriving DecidableEq

/-- A region in a text. Its body begins where its opening marker stops. -/
structure Span where
  marker : Marker
  bodyEnd : Nat
  stop : Nat
deriving DecidableEq

def markerAt (start : Nat) (id : Text) : Marker :=
  ⟨id, start, start + byteSize (opening.write id)⟩

def spanAt (start : Nat) (id body : Text) : Span :=
  let marker := markerAt start id
  let bodyEnd := marker.stop + byteSize body
  ⟨marker, bodyEnd, bodyEnd + byteSize (closing.write id)⟩

/-- The spans of the regions among pieces that begin at an offset. -/
def spansFrom (offset : Nat) : List Piece → List Span
  | [] => []
  | .plain t :: rest => spansFrom (offset + byteSize t) rest
  | .unclosed id :: rest => spansFrom (markerAt offset id).stop rest
  | .region id body :: rest =>
    spanAt offset id body :: spansFrom (spanAt offset id body).stop rest

def spans (t : Text) : List Span := spansFrom 0 (pieces t)

/-! ## The loop -/

/-- Where the loop stands. It is broken if an offset is no place in the text. -/
inductive Loop where
  | going (offset : Nat) (found : List Span)
  | ended (found : List Span)
  | broken

def turn (t : Text) : Loop → Loop
  | .ended found => .ended found
  | .broken => .broken
  | .going offset found =>
    match splitAt? offset t with
    | none => .broken
    | some (_, rest) =>
      match opening.find? rest with
      | none => .ended found
      | some (before, id, _) =>
        let start := offset + byteSize before
        match splitAt? (markerAt start id).stop t with
        | none => .broken
        | some (_, behind) =>
          match cut? (closing.write id) behind with
          | none => .going (markerAt start id).stop found
          | some (body, _) => .going (spanAt start id body).stop (found ++ [spanAt start id body])

variable {t front before id body rest behind more : Text} {found : List Span} {cut : List Piece}

theorem turn_of_no_marker (h : opening.find? rest = none) :
    turn (front ++ rest) (.going (byteSize front) found) = .ended found := by
  simp only [turn, splitAt?_append, h]

theorem splitAt?_markerAt (h : opening.find? rest = some (before, id, behind)) :
    splitAt? (markerAt (byteSize front + byteSize before) id).stop (front ++ rest) =
      some (front ++ before ++ opening.write id, behind) := by
  rw [splitAt?_eq_some_iff, (eq_of_find? h).1, markerAt, byteSize_append, byteSize_append]
  exact ⟨by simp, rfl⟩

theorem turn_of_region (hfound : opening.find? rest = some (before, id, behind))
    (hclosed : cut? (closing.write id) behind = some (body, more)) :
    turn (front ++ rest) (.going (byteSize front) found) =
      .going (spanAt (byteSize front + byteSize before) id body).stop
        (found ++ [spanAt (byteSize front + byteSize before) id body]) := by
  simp only [turn, splitAt?_append, hfound, splitAt?_markerAt hfound, hclosed]

theorem turn_of_unclosed (hfound : opening.find? rest = some (before, id, behind))
    (hclosed : cut? (closing.write id) behind = none) :
    turn (front ++ rest) (.going (byteSize front) found) =
      .going (markerAt (byteSize front + byteSize before) id).stop found := by
  simp only [turn, splitAt?_append, hfound, splitAt?_markerAt hfound, hclosed]

/-! ## Offsets -/

theorem append_region (front before id body rest : Text) :
    front ++ (before ++ opening.write id ++ (body ++ closing.write id ++ rest)) =
      front ++ before ++ (Piece.region id body).text ++ rest := by
  simp only [Piece.text, List.append_assoc]

theorem append_unclosed (front before id behind : Text) :
    front ++ (before ++ opening.write id ++ behind) =
      front ++ before ++ (Piece.unclosed id).text ++ behind := by
  simp only [Piece.text, List.append_assoc]

theorem stop_spanAt (front before id body : Text) :
    (spanAt (byteSize front + byteSize before) id body).stop =
      byteSize (front ++ before ++ (Piece.region id body).text) := by
  simp only [spanAt, markerAt, Piece.text, byteSize_append, Nat.add_assoc]

theorem stop_markerAt (front before id : Text) :
    (markerAt (byteSize front + byteSize before) id).stop =
      byteSize (front ++ before ++ (Piece.unclosed id).text) := by
  simp only [markerAt, Piece.text, byteSize_append]

theorem spansFrom_region (front before id body : Text) (cut : List Piece) :
    spansFrom (byteSize front) (.plain before :: .region id body :: cut) =
      spanAt (byteSize front + byteSize before) id body ::
        spansFrom (byteSize (front ++ before ++ (Piece.region id body).text)) cut := by
  rw [← stop_spanAt]
  rfl

theorem spansFrom_unclosed (front before id : Text) (cut : List Piece) :
    spansFrom (byteSize front) (.plain before :: .unclosed id :: cut) =
      spansFrom (byteSize (front ++ before ++ (Piece.unclosed id).text)) cut := by
  rw [← stop_markerAt]
  rfl

/-- The loop ends with the spans of the pieces that are left. -/
theorem exists_turns (front rest : Text) (found : List Span) :
    ∃ turns, (turn (front ++ rest))^[turns] (.going (byteSize front) found) =
      .ended (found ++ spansFrom (byteSize front) (pieces rest)) := by
  -- Each piece takes one turn, whatever is in front of it and was found there.
  fun_induction pieces rest generalizing front found with
  | case1 rest hnone =>
    refine ⟨1, ?_⟩
    rw [Function.iterate_one, turn_of_no_marker hnone, spansFrom, spansFrom, List.append_nil]
  | case2 rest before id behind hfound body more hclosed ih =>
    have htext : front ++ rest = front ++ before ++ (Piece.region id body).text ++ more := by
      rw [(eq_of_find? hfound).1, eq_of_cut? hclosed, append_region]
    obtain ⟨turns, hturns⟩ := ih (front ++ before ++ (Piece.region id body).text)
      (found ++ [spanAt (byteSize front + byteSize before) id body])
    refine ⟨turns + 1, ?_⟩
    rw [Function.iterate_succ_apply, turn_of_region hfound hclosed, stop_spanAt, htext, hturns,
      spansFrom_region, List.append_assoc, List.singleton_append]
  | case3 rest before id behind hfound hclosed ih =>
    have htext : front ++ rest = front ++ before ++ (Piece.unclosed id).text ++ behind := by
      rw [(eq_of_find? hfound).1, append_unclosed]
    obtain ⟨turns, hturns⟩ := ih (front ++ before ++ (Piece.unclosed id).text) found
    refine ⟨turns + 1, ?_⟩
    rw [Function.iterate_succ_apply, turn_of_unclosed hfound hclosed, stop_markerAt, htext, hturns,
      spansFrom_unclosed]

/-! ## What stands in a span -/

/-- The markers of a span stand around a body that holds no closing marker. -/
structure Span.Stands (span : Span) (body t : Text) : Prop where
  opens : slice? span.marker.start span.marker.stop t = some (opening.write span.marker.id)
  holds : slice? span.marker.stop span.bodyEnd t = some body
  closes : slice? span.bodyEnd span.stop t = some (closing.write span.marker.id)
  first : ¬ closing.write span.marker.id <:+: body

theorem stands_spanAt (h : ¬ closing.write id <:+: body) (front more : Text) :
    (spanAt (byteSize front) id body).Stands body
      (front ++ (Piece.region id body).text ++ more) := by
  have hopening : byteSize (front ++ opening.write id) =
      byteSize front + byteSize (opening.write id) := byteSize_append _ _
  constructor
  case opens =>
    exact slice?_eq_some_iff.2
      ⟨front, body ++ closing.write id ++ more, by simp [Piece.text, spanAt, markerAt], rfl, rfl⟩
  case holds =>
    exact slice?_eq_some_iff.2
      ⟨front ++ opening.write id, closing.write id ++ more, by simp [Piece.text], hopening, rfl⟩
  case closes =>
    refine slice?_eq_some_iff.2 ⟨front ++ opening.write id ++ body, more,
      by simp [Piece.text, spanAt, markerAt], ?_, rfl⟩
    rw [byteSize_append, hopening]
    rfl
  case first => exact h

theorem Span.Stands.bounds {span : Span} (h : span.Stands body t) :
    span.marker.start < span.marker.stop ∧ span.marker.stop ≤ span.bodyEnd ∧
      span.bodyEnd < span.stop ∧ span.stop ≤ byteSize t := by
  have hpos : ∀ shape : MarkShape, 0 < byteSize (shape.write span.marker.id) := by
    intro shape
    exact Nat.pos_of_ne_zero (mt byteSize_eq_zero_iff.1 (shape.write_ne_nil _))
  obtain ⟨-, -, -, -, hopens⟩ := slice?_eq_some_iff.1 h.opens
  obtain ⟨-, -, -, -, hholds⟩ := slice?_eq_some_iff.1 h.holds
  obtain ⟨front, back, ht, hend, hcloses⟩ := slice?_eq_some_iff.1 h.closes
  have hsize : byteSize t = span.stop + byteSize back := by
    rw [ht, byteSize_append, byteSize_append, hend, hcloses]
  have := hpos opening
  have := hpos closing
  omega

theorem Cut.forall₂_spansFrom (h : Cut rest cut) (front : Text) :
    List.Forall₂ (fun span region => span.marker.id = region.1 ∧
      span.Stands region.2 (front ++ rest)) (spansFrom (byteSize front) cut)
      (cut.filterMap Piece.region?) := by
  induction h generalizing front with
  | plain _ => exact .nil
  | @region before id body rest cut hid hfirst hbody _ ih =>
    have hnot : ¬ closing.write id <:+: body :=
      fun hclosing => hbody (List.infix_append_of_infix_left hclosing)
    rw [spansFrom_region, append_region, ← byteSize_append]
    exact .cons ⟨rfl, stands_spanAt hnot (front ++ before) rest⟩ (ih _)
  | @unclosed before id behind cut hid hfirst hbehind _ ih =>
    rw [spansFrom_unclosed, append_unclosed]
    exact ih _

/-! ## The order of spans -/

theorem le_start_of_mem_spansFrom {span : Span} {offset : Nat} (h : span ∈ spansFrom offset cut) :
    offset ≤ span.marker.start := by
  induction cut generalizing offset with
  | nil => cases h
  | cons piece cut ih =>
    cases piece with
    | plain t => exact Nat.le_trans (Nat.le_add_right _ _) (ih h)
    | unclosed id => exact Nat.le_trans (Nat.le_add_right _ _) (ih h)
    | region id body =>
      rcases List.mem_cons.1 h with rfl | h
      · exact Nat.le_refl _
      · -- A later span begins behind this one.
        have hlater := ih h
        simp only [spanAt, markerAt] at hlater
        omega

theorem pairwise_spansFrom (offset : Nat) (cut : List Piece) :
    (spansFrom offset cut).Pairwise fun span later => span.stop ≤ later.marker.start := by
  induction cut generalizing offset with
  | nil => exact .nil
  | cons piece cut ih =>
    cases piece with
    | plain t => exact ih _
    | unclosed id => exact ih _
    | region id body =>
      exact List.pairwise_cons.2 ⟨fun later hlater => le_start_of_mem_spansFrom hlater, ih _⟩

/-! ## Markers on the way -/

/-- The opening markers of a text that begins at an offset, each the first one behind the one
before. -/
def markersFrom (offset : Nat) (t : Text) : List Marker :=
  match _found : opening.find? t with
  | none => []
  | some (before, id, behind) =>
    markerAt (offset + byteSize before) id ::
      markersFrom (markerAt (offset + byteSize before) id).stop behind
termination_by t.length
decreasing_by exact length_lt_of_find? ‹_›

/-- The opening markers of a text behind an offset. -/
def markersBehind? (offset : Nat) (t : Text) : Option (List Marker) :=
  (splitAt? offset t).map fun (_, rest) => markersFrom offset rest

/-- The marker is the opening marker of its id, where it says. -/
structure Marker.Stands (marker : Marker) (t : Text) : Prop where
  isId : IsId marker.id
  opens : slice? marker.start marker.stop t = some (opening.write marker.id)

/-- The markers that are met from an offset on, by where they stand: they do not overlap, and an
opening marker that begins behind the offset is one of them or begins within one of them. So none
ends between one that is met and the next. -/
structure Met (t : Text) (offset : Nat) (markers : List Marker) : Prop where
  stand : ∀ marker ∈ markers, marker.Stands t
  behind : ∀ marker ∈ markers, offset ≤ marker.start
  apart : markers.Pairwise fun marker later => marker.stop ≤ later.start
  complete : ∀ marker : Marker, marker.Stands t → offset ≤ marker.start →
    ∃ met ∈ markers, met.start ≤ marker.start ∧ marker.start < met.stop

/-- Nothing closes the marker in the text behind it. -/
def Marker.Unclosed (marker : Marker) (t : Text) : Prop :=
  ∃ front behind, splitAt? marker.stop t = some (front, behind) ∧
    ¬ closing.write marker.id <:+: behind

/-- Where the search goes on behind spans. -/
def resume (offset : Nat) (found : List Span) : Nat := (found.getLast?.map Span.stop).getD offset

theorem markersFrom_of_none (h : opening.find? t = none) (offset : Nat) :
    markersFrom offset t = [] := by
  rw [markersFrom]
  split
  · rfl
  · rename_i hfound
    rw [h] at hfound
    cases hfound

theorem markersFrom_of_find? (h : opening.find? t = some (before, id, behind)) (offset : Nat) :
    markersFrom offset t = markerAt (offset + byteSize before) id ::
      markersFrom (markerAt (offset + byteSize before) id).stop behind := by
  rw [markersFrom]
  split
  · rename_i hnone
    rw [h] at hnone
    cases hnone
  · rename_i hfound
    rw [h] at hfound
    cases hfound
    rfl

theorem markersBehind?_append (front rest : Text) :
    markersBehind? (byteSize front) (front ++ rest) = some (markersFrom (byteSize front) rest) := by
  rw [markersBehind?, splitAt?_append]
  rfl

theorem resume_cons (offset : Nat) (span : Span) (found : List Span) :
    resume offset (span :: found) = resume span.stop found := by
  rw [resume, resume, List.getLast?_cons]
  cases found.getLast? <;> rfl

theorem Marker.Stands.exists_behind {marker : Marker} (h : marker.Stands (front ++ rest))
    (hbehind : byteSize front ≤ marker.start) :
    ∃ mid back, rest = mid ++ opening.write marker.id ++ back ∧
      marker.start = byteSize front + byteSize mid := by
  obtain ⟨upTo, back, ht, hstart, -⟩ := slice?_eq_some_iff.1 h.opens
  rw [List.append_assoc] at ht
  rw [← hstart] at hbehind ⊢
  obtain ⟨mid, rfl, rfl⟩ := exists_eq_append_of_byteSize_le ht hbehind
  exact ⟨mid, back, (List.append_assoc _ _ _).symm, byteSize_append front mid⟩

theorem stands_markerAt (h : IsId id) (front before behind : Text) :
    (markerAt (byteSize front + byteSize before) id).Stands
      (front ++ (before ++ opening.write id ++ behind)) := by
  refine ⟨h, slice?_eq_some_iff.2 ⟨front ++ before, behind, ?_, byteSize_append _ _, rfl⟩⟩
  simp only [markerAt, List.append_assoc]

/-- No opening marker begins in front of the first one. -/
theorem start_le_of_find? (h : opening.find? rest = some (before, id, behind)) {marker : Marker}
    (hstands : marker.Stands (front ++ rest)) (hbehind : byteSize front ≤ marker.start) :
    byteSize front + byteSize before ≤ marker.start := by
  obtain ⟨mid, back, rfl, hstart⟩ := hstands.exists_behind hbehind
  rw [hstart]
  by_contra hless
  obtain ⟨hrest, -, hfirst⟩ := find?_opening_eq_some_iff.1 h
  rw [List.append_assoc, List.append_assoc] at hrest
  obtain ⟨gap, rfl, hgap⟩ := exists_eq_append_of_byteSize_le hrest (by omega)
  by_cases hopens : Opens (mid ++ ['/'])
  · -- An even earlier marker ends at the slash with which this one begins.
    obtain ⟨other, hother, hplace⟩ := hopens
    refine hfirst ⟨other, hother, hplace.trans ?_⟩
    cases gap with
    | nil => exact absurd (by simp) hless
    | cons c gap =>
      rw [write_opening, List.cons_append] at hgap
      obtain rfl := (List.cons.inj hgap).1
      exact ⟨[], gap ++ ['/'], by simp⟩
  · rw [find?_opening_eq_some_iff.2 ⟨rfl, hstands.isId, hopens⟩] at h
    obtain ⟨hmid, -⟩ := Prod.mk.inj (Option.some.inj h)
    rw [← hmid] at hless
    exact hless (Nat.le_refl _)

/-- A search for one marker after the other meets them all. -/
theorem met_markersFrom (front rest : Text) :
    Met (front ++ rest) (byteSize front) (markersFrom (byteSize front) rest) := by
  generalize hoffset : byteSize front = offset
  fun_induction markersFrom offset rest generalizing front with
  | case1 offset rest hnone =>
    refine ⟨nofun, nofun, .nil, fun marker hstands hbehind => ?_⟩
    obtain ⟨mid, back, hrest, -⟩ := hstands.exists_behind (hoffset ▸ hbehind)
    exact absurd ⟨marker.id, hstands.isId, mid, back, hrest.symm⟩
      (find?_opening_eq_none_iff.1 hnone)
  | case2 offset rest before id behind hfound ih =>
    subst hoffset
    obtain ⟨hrest, hid⟩ := eq_of_find? hfound
    have hlater := ih (front ++ before ++ (Piece.unclosed id).text)
      (stop_markerAt front before id).symm
    rw [← append_unclosed, ← hrest] at hlater
    have hstart : byteSize front ≤ (markerAt (byteSize front + byteSize before) id).start :=
      Nat.le_add_right _ _
    have hstop : byteSize front ≤ (markerAt (byteSize front + byteSize before) id).stop :=
      Nat.le_trans hstart (Nat.le_add_right _ _)
    constructor
    case stand =>
      refine List.forall_mem_cons.2 ⟨?_, hlater.stand⟩
      rw [hrest]
      exact stands_markerAt hid front before behind
    case behind =>
      exact List.forall_mem_cons.2
        ⟨hstart, fun marker hmem => Nat.le_trans hstop (hlater.behind marker hmem)⟩
    case apart => exact .cons hlater.behind hlater.apart
    case complete =>
      intro marker hstands hbehind
      rcases Nat.lt_or_ge marker.start
        (markerAt (byteSize front + byteSize before) id).stop with hin | hout
      · exact ⟨_, List.mem_cons_self, start_le_of_find? hfound hstands hbehind, hin⟩
      · obtain ⟨met, hmem, hmet⟩ := hlater.complete marker hstands hout
        exact ⟨met, List.mem_cons_of_mem _ hmem, hmet⟩

theorem met_of_markersBehind? {offset : Nat} {markers : List Marker}
    (h : markersBehind? offset t = some markers) : Met t offset markers := by
  obtain ⟨⟨front, rest⟩, hsplit, rfl⟩ := Option.map_eq_some_iff.1 h
  obtain ⟨rfl, rfl⟩ := splitAt?_eq_some_iff.1 hsplit
  exact met_markersFrom front rest

/-- From where the search goes on it meets markers that nothing closes, and then that of the next
span, if there is one. -/
theorem Cut.exists_markers (h : Cut rest cut) (front : Text) {found later : List Span}
    (hspans : spansFrom (byteSize front) cut = found ++ later) :
    ∃ lost met, markersBehind? (resume (byteSize front) found) (front ++ rest) =
        some (lost ++ met) ∧
      (∀ marker ∈ lost, marker.Unclosed (front ++ rest)) ∧
      met.head? = later.head?.map Span.marker := by
  induction h generalizing front found with
  | plain hnone =>
    obtain ⟨rfl, rfl⟩ := List.append_eq_nil_iff.1 hspans.symm
    refine ⟨[], [], ?_, nofun, rfl⟩
    exact (markersBehind?_append front _).trans
      (congrArg some (markersFrom_of_none (find?_opening_eq_none_iff.2 hnone) _))
  | @region before id body rest cut hid hfirst hbody _ ih =>
    have hfound : opening.find? (before ++ opening.write id ++ (body ++ closing.write id ++ rest)) =
        some (before, id, body ++ closing.write id ++ rest) :=
      find?_opening_eq_some_iff.2 ⟨rfl, hid, hfirst⟩
    rw [spansFrom_region] at hspans
    cases found with
    | nil =>
      obtain rfl := hspans
      exact ⟨[], _, markersBehind?_append front _, nofun,
        congrArg List.head? (markersFrom_of_find? hfound _)⟩
    | cons span found =>
      obtain ⟨rfl, hrest⟩ := List.cons.inj hspans
      rw [resume_cons, stop_spanAt, append_region]
      exact ih _ hrest
  | @unclosed before id behind cut hid hfirst hbehind _ ih =>
    have hfound : opening.find? (before ++ opening.write id ++ behind) = some (before, id, behind) :=
      find?_opening_eq_some_iff.2 ⟨rfl, hid, hfirst⟩
    rw [spansFrom_unclosed] at hspans
    obtain ⟨lost, met, hmarkers, hlost, hmet⟩ := ih _ hspans
    -- The search meets this marker only if it goes on in front of it, behind no span.
    cases found with
    | nil =>
      rw [resume, List.getLast?_nil, Option.map_none, Option.getD_none,
        markersBehind?_append] at hmarkers
      refine ⟨markerAt (byteSize front + byteSize before) id :: lost, met, ?_, ?_, hmet⟩
      · refine (markersBehind?_append front _).trans (congrArg some ?_)
        rw [markersFrom_of_find? hfound, stop_markerAt, Option.some.inj hmarkers, List.cons_append]
      · rw [append_unclosed]
        refine List.forall_mem_cons.2
          ⟨⟨front ++ before ++ (Piece.unclosed id).text, behind, ?_, hbehind⟩, hlost⟩
        rw [stop_markerAt, splitAt?_append]
    | cons span found =>
      rw [resume_cons] at hmarkers ⊢
      rw [append_unclosed]
      exact ⟨lost, met, hmarkers, hlost, hmet⟩

/-! ## All together -/

/-- The loop is over after finitely many turns, and all its offsets are places in the text. What it
has found are the spans of the regions, one for each id and body: they lie in the text one behind
the other, each with the markers of its id around its body, which holds no closing marker. From the
end of any of them, and from the start of the text, the opening markers that are met up to that of
the next one, or all of them if there is none, are markers that nothing in the text behind them
closes; and these are all that there are to meet. -/
theorem spans_exact (t : Text) :
    (∃ turns, (turn t)^[turns] (.going 0 []) = .ended (spans t)) ∧
    (spans t).Pairwise (fun span later => span.stop ≤ later.marker.start) ∧
    List.Forall₂ (fun span region => span.marker.id = region.1 ∧ span.Stands region.2 t)
      (spans t) (all t) ∧
    (∀ span ∈ spans t, span.marker.start < span.marker.stop ∧ span.marker.stop ≤ span.bodyEnd ∧
      span.bodyEnd < span.stop ∧ span.stop ≤ byteSize t) ∧
    ∀ n, ∃ lost met, markersBehind? (resume 0 ((spans t).take n)) t = some (lost ++ met) ∧
      Met t (resume 0 ((spans t).take n)) (lost ++ met) ∧
      (∀ marker ∈ lost, marker.Unclosed t) ∧ met.head? = (spans t)[n]?.map Span.marker := by
  have hstands := (cut_pieces t).forall₂_spansFrom []
  have hbounds := hstands.imp fun _ _ h => And.intro h.2.bounds h
  refine ⟨exists_turns [] t [], pairwise_spansFrom 0 _, hstands,
    ((List.forall₂_and_left _ _).1 hbounds).1, fun n => ?_⟩
  obtain ⟨lost, met, hmarkers, hlost, hnext⟩ :=
    (cut_pieces t).exists_markers [] (List.take_append_drop n (spans t)).symm
  rw [List.head?_drop] at hnext
  exact ⟨lost, met, hmarkers, met_of_markersBehind? hmarkers, hlost, hnext⟩

/-- Nothing closes the first marker, and an offset behind it counts two bytes for one character. -/
example : spans "/***[REGION=a]***/é/***[REGION=b]***/x/***[/REGION=b]***/" =
    [⟨⟨"b", 20, 38⟩, 39, 58⟩] := by
  decide +kernel

end ViewBuilder.Region
