import ViewBuilder.Proofs.CustomCode.Capture

/-!
# Regions inside of others

A text is cut from left to right, so a region is found where it stands unless an opening marker
before it is left open until there and closed later on. Then the region belongs to the body of that
outer one, and only the outer one counts: without a captured body it stays as it is, with all that
is in it.
-/

namespace ViewBuilder

namespace Region

open Text MarkShape

variable {x v w y z id u : Text} {cut more : List Piece}

/-! ## Where a text goes on -/

/-- An opening marker that a text leaves open is closed in what follows. -/
def Encloses (x v : Text) : Prop := ∃ u, .unclosed u ∈ pieces x ∧ closing.write u <:+: v

/-- No marker at the end of a text shares its last slash with what follows. -/
def Apart (x : Text) : Prop :=
  ∀ u, IsId u → ¬ opening.write u <:+ x ++ ['/'] ∧ ¬ closing.write u <:+ x ++ ['/']

theorem apart_of_getLast? (h : x.getLast? ≠ some '*') : Apart x := by
  have hend : ∀ t : Text, ¬ t ++ "*/".toList <:+ x ++ ['/'] := by
    rintro t ⟨front, hfront⟩
    have hstar : front ++ t ++ ['*'] ++ ['/'] = x ++ ['/'] := by simpa using hfront
    rw [← (List.append_inj' hstar rfl).1] at h
    simp at h
  have hopening : opening.tail = "]**".toList ++ "*/".toList := by decide
  have hclosing : closing.tail = "]**".toList ++ "*/".toList := by decide
  intro u _
  unfold MarkShape.write
  rw [hopening, hclosing, ← List.append_assoc, ← List.append_assoc]
  exact ⟨hend _, hend _⟩

theorem Apart.of_suffix (h : Apart x) (hsuffix : y <:+ x) : Apart y := by
  obtain ⟨front, rfl⟩ := hsuffix
  have hslash : y ++ ['/'] <:+ front ++ y ++ ['/'] := ⟨front, by simp⟩
  intro u hu
  exact ⟨fun hopening => (h u hu).1 (hopening.trans hslash),
    fun hclosing => (h u hu).2 (hclosing.trans hslash)⟩

theorem Apart.behind_opening (h : Apart (x ++ opening.write u ++ y)) : Apart y :=
  h.of_suffix (List.suffix_append _ _)

theorem Apart.behind_region (h : Apart (x ++ opening.write u ++ (y ++ closing.write u ++ z))) :
    Apart z :=
  h.behind_opening.of_suffix (List.suffix_append _ _)

theorem Apart.not_opens (h : Apart x) (hx : ¬ Opens x) : ¬ Opens (x ++ ['/']) := by
  rintro ⟨u, hu, hplace⟩
  rcases List.infix_concat_iff.1 hplace with hend | hin
  · exact (h u hu).1 hend
  · exact hx ⟨u, hu, hin⟩

/-- A closing marker stands before an opening one or behind it. -/
theorem Apart.not_closing (h : Apart x) (hu : IsId u) (hid : IsId id)
    (hx : ¬ closing.write u <:+: x) (hv : opening.write id <+: v)
    (hnot : ¬ closing.write u <:+: v) : ¬ closing.write u <:+: x ++ v := by
  obtain ⟨w, rfl⟩ := hv
  intro hclosing
  rw [← List.append_assoc] at hclosing
  rcases closing_of_opening hu hid hclosing with hfront | hback
  · rcases List.infix_concat_iff.1 hfront with hend | hin
    · exact (h u hu).2 hend
    · exact hx hin
  · exact hnot (hback.trans (by simpa using slash_infix_opening [] id w))

/-- What is cut off at a closing marker holds the start of the opening marker before it. -/
theorem opening_prefix_of_closing {body rest : Text} (hid : IsId id)
    (h : opening.write id ++ w = body ++ closing.write u ++ rest) :
    (opening.write id).dropLast <+: body := by
  have hdrop : (opening.write id).dropLast = '/' :: openingInner id := by
    rw [write_opening, ← List.cons_append, List.dropLast_concat]
  rw [write_opening, write_closing] at h
  rw [hdrop]
  cases body with
  | nil =>
    have heq : openingInner id ++ '/' :: w =
        closingFront ++ '/' :: (closingInner u ++ '/' :: rest) := by
      simpa using h
    have hbegin : closingFront ++ ['/'] <+: openingInner id ++ '/' :: w :=
      ⟨closingInner u ++ '/' :: rest, by simp [heq]⟩
    exact absurd ((prefix_around_iff slash_not_mem_closingFront
      (slash_not_mem_openingInner hid)).1 hbegin).1 (closingFront_ne_openingInner id)
  | cons c body =>
    have heq : '/' = c ∧ openingInner id ++ '/' :: w =
        body ++ '/' :: (closingFront ++ '/' :: (closingInner u ++ '/' :: rest)) := by
      simpa using h
    rw [← heq.1, List.cons_prefix_cons]
    refine ⟨rfl, ?_⟩
    rcases List.append_eq_append_iff.1 heq.2 with ⟨more, rfl, -⟩ | ⟨more, hinner, hmore⟩
    · exact List.prefix_append _ _
    · -- The marker has no slash but at its ends.
      cases more with
      | nil => exact ⟨[], by simp [hinner]⟩
      | cons d more =>
        obtain rfl := (List.cons.inj hmore).1
        exact absurd (by simp [hinner]) (slash_not_mem_openingInner hid)

/-- Nor does what is cut off end before the opening marker does, up to its last slash. -/
theorem opening_prefix_of_cut? {body rest : Text} (hid : IsId id) (hv : opening.write id <+: v)
    (h : v = body ++ closing.write u ++ rest) :
    opening.write id <+: body ++ (closing.write u).dropLast := by
  obtain ⟨w, rfl⟩ := hv
  have hbegin := (opening_prefix_of_closing hid h).length_le
  refine List.prefix_of_prefix_length_le (List.prefix_append _ w) ?_ ?_
  · rw [h, List.append_assoc, List.prefix_append_right_inj]
    exact (List.dropLast_prefix _).trans (List.prefix_append _ _)
  · have hlength : 1 < (closing.write u).length := by
      rw [write_closing]
      simp only [List.length_cons, List.length_append]
      omega
    rw [List.length_dropLast] at hbegin
    rw [List.length_append, List.length_dropLast]
    omega

/-! ## A region behind a text -/

/-- What a text is cut into, if no marker in it is left open for the region behind it. -/
theorem Cut.append_region (h : Cut x cut) (hapart : Apart x) (hid : IsId id)
    (hy : ¬ closing.write id <:+: y ++ (closing.write id).dropLast)
    (hnot : ∀ u, .unclosed u ∈ cut →
      ¬ closing.write u <:+: opening.write id ++ (y ++ closing.write id ++ z))
    (hz : Cut z more) :
    Cut (x ++ (opening.write id ++ (y ++ closing.write id ++ z))) (cut ++ .region id y :: more) := by
  induction h with
  | plain hnone =>
    rw [← List.append_assoc]
    exact .region hid (hapart.not_opens hnone) hy hz
  | @region before other body rest cut hother hfirst hbody _ ih =>
    have hcut := ih hapart.behind_region fun u hmem => hnot u (by simp [hmem])
    simpa using Cut.region hother hfirst hbody hcut
  | @unclosed before other behind cut hother hfirst hbehind _ ih =>
    have hcut := ih hapart.behind_opening fun u hmem => hnot u (by simp [hmem])
    -- The marker stays open, for neither the text behind it nor the region closes it.
    have hlater := hapart.behind_opening.not_closing hother hid hbehind (List.prefix_append _ _)
      (hnot other (by simp))
    simpa using Cut.unclosed hother hfirst hlater hcut

/-- What a text is cut into, if the region behind it comes to a marker that was left open. -/
theorem Cut.exists_outer (h : Cut x cut) (hapart : Apart x) (hid : IsId id)
    (hv : opening.write id <+: v) (henclosed : ∃ u, .unclosed u ∈ cut ∧ closing.write u <:+: v) :
    ∃ front fcut u inner body rest, x = front ++ opening.write u ++ inner ∧
      v = body ++ closing.write u ++ rest ∧ Cut front fcut ∧
      Cut (x ++ v) (fcut ++ .region u (inner ++ body) :: pieces rest) := by
  induction h with
  | plain hnone =>
    obtain ⟨u, hmem, -⟩ := henclosed
    simp at hmem
  | @region before other body rest cut hother hfirst hbody _ ih =>
    have hlater : ∃ u, .unclosed u ∈ cut ∧ closing.write u <:+: v := by
      obtain ⟨u, hmem, hclosing⟩ := henclosed
      exact ⟨u, by simpa using hmem, hclosing⟩
    obtain ⟨front, fcut, u, inner, outer, behind, rfl, heq, hfront, hcut⟩ :=
      ih hapart.behind_region hlater
    refine ⟨before ++ opening.write other ++ (body ++ closing.write other ++ front),
      .plain before :: .region other body :: fcut, u, inner, outer, behind, by simp, heq,
      .region hother hfirst hbody hfront, ?_⟩
    simpa using Cut.region hother hfirst hbody hcut
  | @unclosed before other behind cut hother hfirst hbehind _ ih =>
    have hapart' := hapart.behind_opening
    -- Of the markers left open, the first one that `v` closes is the outer one.
    by_cases hclosed : closing.write other <:+: v
    · obtain ⟨body, rest, hfound⟩ := exists_cut?_of_infix hclosed
      obtain ⟨heq, hbody⟩ := (cut?_eq_some_iff (closing.write_ne_nil other)).1 hfound
      have hinner := hapart'.not_closing hother hid hbehind (opening_prefix_of_cut? hid hv heq) hbody
      refine ⟨before, [.plain before], other, behind, body, rest, rfl, heq, .plain ?_, ?_⟩
      · rintro ⟨u, hu, hplace⟩
        exact hfirst ⟨u, hu, List.infix_append_of_infix_left hplace⟩
      · rw [heq]
        rw [← List.append_assoc] at hinner
        simpa using Cut.region hother hfirst hinner (cut_pieces rest)
    · have hlater : ∃ u, .unclosed u ∈ cut ∧ closing.write u <:+: v := by
        obtain ⟨u, hmem, hclosing⟩ := henclosed
        have hcases : u = other ∨ .unclosed u ∈ cut := by simpa using hmem
        rcases hcases with rfl | hmem
        · exact absurd hclosing hclosed
        · exact ⟨u, hmem, hclosing⟩
      obtain ⟨front, fcut, u, inner, outer, rest, rfl, heq, hfront, hcut⟩ := ih hapart' hlater
      have hbefore : ¬ closing.write other <:+: front := fun hclosing =>
        hbehind (List.infix_append_of_infix_left (List.infix_append_of_infix_left hclosing))
      refine ⟨before ++ opening.write other ++ front, .plain before :: .unclosed other :: fcut, u,
        inner, outer, rest, by simp, heq, .unclosed hother hfirst hbefore hfront, ?_⟩
      have hopen := hapart'.not_closing hother hid hbehind hv hclosed
      simpa using Cut.unclosed hother hfirst hopen hcut

theorem Cut.isId_of_mem {t body : Text} (h : Cut t cut) (hmem : .region id body ∈ cut) :
    IsId id := by
  induction h with
  | plain _ => simp at hmem
  | @region before other otherBody rest cut hother _ _ _ ih =>
    have hcases : (id = other ∧ body = otherBody) ∨ .region id body ∈ cut := by simpa using hmem
    rcases hcases with ⟨rfl, -⟩ | hmem
    · exact hother
    · exact ih hmem
  | unclosed _ _ _ _ ih => exact ih (by simpa using hmem)

end Region

namespace CustomCode

open Text Region MarkShape

/-! ## Captured from earlier outputs -/

def captureAll (priors : List Text) : CustomCode :=
  priors.foldl (fun code prior => (code.capture prior).1) empty

theorem captureAll_concat (priors : List Text) (prior : Text) :
    captureAll (priors ++ [prior]) = ((captureAll priors).capture prior).1 := by
  rw [captureAll, List.foldl_concat, captureAll]

theorem snippets_captureAll (priors : List Text) :
    (captureAll priors).snippets.isEmpty = true := by
  induction priors using List.reverseRecOn with
  | nil => rfl
  | append_singleton priors prior ih =>
    rw [captureAll_concat, snippets_capture]
    exact ih

theorem isId_of_captured? {priors : List Text} {id body : Text}
    (h : (captureAll priors).captured? id = some body) : IsId id := by
  induction priors using List.reverseRecOn with
  | nil => cases h
  | append_singleton priors prior ih =>
    rw [captureAll_concat, captured?_capture, Option.or_eq_some_iff] at h
    rcases h with hold | ⟨-, hnew⟩
    · exact ih hold
    · exact (cut_pieces prior).isId_of_mem (mem_all_iff.1 (Entries.mem_of_get? hnew))

/-! ## An update around a region -/

theorem update_eq_of_pieces {code : CustomCode} (h : code.snippets.isEmpty = true) {t : Text}
    {front rest : List Piece} {id body : Text}
    (hpieces : pieces t = front ++ .region id body :: rest) :
    code.update t = textOf (front.map (Piece.refill code.bodyFor)) ++
      (Piece.region id (code.bodyFor id body)).text ++
      textOf (rest.map (Piece.refill code.bodyFor)) := by
  rw [update_eq h, hpieces]
  simp [textOf, Piece.refill]

/-- Puts the body of a captured region back that stands in a text, with whatever text around. The
exception is a marker before the region that is left open until there: then the region up to the
closing marker of that one is in its place, with its own captured body, if there is one. -/
theorem update_around_region (priors : List Text) (id b x y z : Text)
    (hcaptured : (captureAll priors).captured? id = some b) (hapart : Apart x)
    (hy : ¬ closing.write id <:+: y ++ ['/']) :
    (¬ Encloses x ((Piece.region id y).text ++ z) →
      (captureAll priors).update (x ++ (Piece.region id y).text ++ z) =
        (captureAll priors).update x ++ (Piece.region id b).text ++
          (captureAll priors).update z) ∧
    (Encloses x ((Piece.region id y).text ++ z) → ∃ front u inner body rest,
      x = front ++ opening.write u ++ inner ∧
      (Piece.region id y).text ++ z = body ++ closing.write u ++ rest ∧
      (opening.write id).dropLast <+: body ∧
      (captureAll priors).update (x ++ (Piece.region id y).text ++ z) =
        (captureAll priors).update front ++
          (Piece.region u (((captureAll priors).captured? u).getD (inner ++ body))).text ++
          (captureAll priors).update rest) := by
  have hsnippets := snippets_captureAll priors
  have hid := isId_of_captured? hcaptured
  have htext : (Piece.region id y).text ++ z =
      opening.write id ++ (y ++ closing.write id ++ z) := by
    simp [Piece.text]
  rw [List.append_assoc, htext]
  constructor
  · intro hnot
    have hpieces := pieces_eq_of_cut ((cut_pieces x).append_region hapart hid
      (not_closing_early hy hid) (fun u hmem hclosing => hnot ⟨u, hmem, hclosing⟩) (cut_pieces z))
    have hb : (captureAll priors).bodyFor id y = b := by
      rw [bodyFor, hcaptured, Option.getD_some]
    rw [update_eq_of_pieces hsnippets hpieces, hb, update_eq hsnippets x, update_eq hsnippets z]
  · intro hencloses
    obtain ⟨front, fcut, u, inner, body, rest, hx, heq, hfront, hcut⟩ :=
      (cut_pieces x).exists_outer hapart hid (List.prefix_append _ _) hencloses
    refine ⟨front, u, inner, body, rest, hx, heq, opening_prefix_of_closing hid heq, ?_⟩
    rw [update_eq_of_pieces hsnippets (pieces_eq_of_cut hcut), update_eq hsnippets front,
      update_eq hsnippets rest, pieces_eq_of_cut hfront]
    rfl

/-- An edit of the region `a` in an earlier output. -/
def editedCode : CustomCode := captureAll [(Piece.region "a" "edit").text]

/-- A marker in front that nothing closes is no hindrance, nor is a closing marker behind. -/
theorem update_around_region_lost :
    editedCode.captured? "a" = some "edit".toList ∧ Apart (opening.write "lost") ∧
      ¬ closing.write "a" <:+: "old".toList ++ ['/'] ∧
      ¬ Encloses (opening.write "lost") ((Piece.region "a" "old").text ++ closing.write "o") ∧
      editedCode.update (opening.write "lost" ++ (Piece.region "a" "old").text ++
          closing.write "o") =
        opening.write "lost" ++ (Piece.region "a" "edit").text ++ closing.write "o" := by
  have hcaptured : editedCode.captured? "a" = some "edit".toList := by decide +kernel
  have hapart : Apart (opening.write "lost") := apart_of_getLast? (by decide)
  have hold : ¬ closing.write "a" <:+: "old".toList ++ ['/'] := by decide
  have hnot : ¬ Encloses (opening.write "lost")
      ((Piece.region "a" "old").text ++ closing.write "o") := by
    rintro ⟨u, hmem, hclosing⟩
    have hpieces : pieces (opening.write "lost") = [.plain [], .unclosed "lost", .plain []] := by
      decide +kernel
    rw [hpieces] at hmem
    obtain rfl : u = "lost".toList := by simpa using hmem
    exact absurd hclosing (by decide +kernel)
  have hupdate := (update_around_region _ "a" "edit" (opening.write "lost") "old"
    (closing.write "o") hcaptured hapart hold).1 hnot
  have hsame : editedCode.update (opening.write "lost") = opening.write "lost" ∧
      editedCode.update (closing.write "o") = closing.write "o" := by
    decide +kernel
  refine ⟨hcaptured, hapart, hold, hnot, ?_⟩
  rw [editedCode] at hsame ⊢
  rw [hupdate, hsame.1, hsame.2]

/-- A region without a captured body keeps the old body of the region in it, though that one is
captured. -/
theorem not_update_nested :
    editedCode.captured? "a" = some "edit".toList ∧ editedCode.captured? "o" = none ∧
      Apart (opening.write "o") ∧ ¬ closing.write "a" <:+: "old".toList ++ ['/'] ∧
      editedCode.update
          (opening.write "o" ++ (Piece.region "a" "old").text ++ closing.write "o") =
        opening.write "o" ++ (Piece.region "a" "old").text ++ closing.write "o" ∧
      ¬ (Piece.region "a" "edit").text <:+: editedCode.update
          (opening.write "o" ++ (Piece.region "a" "old").text ++ closing.write "o") := by
  refine ⟨by decide +kernel, by decide +kernel, apart_of_getLast? (by decide), by decide,
    by decide +kernel, by decide +kernel⟩

end CustomCode

end ViewBuilder
