import ViewBuilder.Proofs.CustomCode.Cut

/-!
# Putting other bodies into regions

When bodies of the regions of a text are replaced by bodies without the word of the markers, the
text is cut at the same places again. The bodies that stay may hold markers.
-/

namespace ViewBuilder.Region

open Text MarkShape

/-! ## Bodies without markers -/

/-- A text without the word that all markers hold. -/
def Keyless (t : Text) : Prop := ¬ "REGION=".toList <:+: t

instance (t : Text) : Decidable (Keyless t) := inferInstanceAs (Decidable (¬ _ <:+: t))

theorem keyless_of_not_mem {t : Text} (h : 'R' ∉ t) : Keyless t :=
  fun hkey => h (hkey.subset (by decide))

theorem key_infix_closing (id : Text) : "REGION=".toList <:+: closing.write id := by
  rw [write_closing]
  unfold closingInner
  refine ⟨'/' :: (closingFront ++ ['/']), id ++ "]***".toList ++ ['/'], ?_⟩
  simp only [List.cons_append, List.append_assoc, List.nil_append]

theorem key_infix_opening (id : Text) : "REGION=".toList <:+: opening.write id := by
  rw [write_opening]
  unfold openingInner
  have hfront : "***[REGION=".toList = "***[".toList ++ "REGION=".toList := by decide
  rw [hfront]
  refine ⟨'/' :: "***[".toList, id ++ "]***".toList ++ ['/'], ?_⟩
  simp only [List.cons_append, List.append_assoc]

theorem Keyless.not_closing {t : Text} (h : Keyless t) (id : Text) :
    ¬ closing.write id <:+: t ++ ['/'] := by
  intro hclosing
  rcases (infix_around_iff (by decide)).1 ((key_infix_closing id).trans hclosing) with ht | hnil
  · exact h ht
  · exact absurd (List.infix_nil.1 hnil) (by decide)

theorem Keyless.cons_slash {t : Text} (h : Keyless t) : Keyless ('/' :: t) := by
  intro hkey
  rcases (infix_around_iff (by decide)).1 (show "REGION=".toList <:+: [] ++ '/' :: t from hkey)
    with hnil | ht
  · exact absurd (List.infix_nil.1 hnil) (by decide)
  · exact h ht

/-! ## Closing markers -/

variable {id u : Text}

theorem closing_around_iff {p v : Text} (hp : '/' ∉ p) :
    closing.write u <:+: '/' :: (p ++ '/' :: v) ↔
      (closingFront = p ∧ closingInner u ++ ['/'] <+: v) ∨ closing.write u <:+: '/' :: v := by
  rw [write_closing]
  exact infix_cons_around_iff slash_not_mem_closingFront hp

/-- Around a slash, a closing marker stands before it, behind it, or has it in its middle. -/
theorem closing_around_cases {a b : Text} (hu : IsId u) (h : closing.write u <:+: a ++ '/' :: b) :
    closing.write u <:+: a ++ ['/'] ∨ closing.write u <:+: '/' :: b ∨
      ('/' :: closingFront <:+ a ∧ closingInner u ++ ['/'] <+: b) := by
  rcases infix_around_cases h with hfront | hback | ⟨w₁, w₂, hne₁, hne₂, heq, hend, hbegin⟩
  · exact .inl hfront
  · exact .inr (.inl hback)
  · rw [write_closing] at heq
    have hsplit : '/' :: (closingFront ++ '/' :: closingInner u ++ ['/']) = w₁ ++ '/' :: w₂ := by
      rw [← heq, List.append_assoc, List.cons_append]
    obtain ⟨front, back, rfl, rfl, hinner⟩ := eq_of_cons_concat_eq hsplit hne₁ hne₂
    obtain ⟨rfl, -, rfl⟩ := (List.append_cons_inj_of_notMem slash_not_mem_closingFront
      (slash_not_mem_closingInner hu)).1 hinner
    exact .inr (.inr ⟨hend, hbegin⟩)

theorem closingInner_ne_openingInner (u id : Text) : closingInner u ≠ openingInner id := by
  intro h
  have : 'R' = '*' := (List.cons.inj h).1
  exact absurd this (by decide)

theorem closingInner_ne_closingFront (u : Text) : closingInner u ≠ closingFront := by
  intro h
  have : 'R' = '*' := (List.cons.inj h).1
  exact absurd this (by decide)

theorem closingFront_ne_openingInner (id : Text) : closingFront ≠ openingInner id := by
  intro h
  have := congrArg List.length h
  unfold closingFront openingInner at this
  simp at this

theorem closingInner_injective (h : closingInner u = closingInner id) : u = id := by
  unfold closingInner at h
  simpa using h

theorem closingInner_prefix_iff {p v : Text} (hu : IsId u) (hp : '/' ∉ p) :
    closingInner u ++ ['/'] <+: p ++ '/' :: v ↔ closingInner u = p := by
  rw [prefix_around_iff (slash_not_mem_closingInner hu) hp]
  simp

theorem closing_of_opening {before behind : Text} (hu : IsId u) (hid : IsId id)
    (h : closing.write u <:+: before ++ opening.write id ++ behind) :
    closing.write u <:+: before ++ ['/'] ∨ closing.write u <:+: '/' :: behind := by
  have hslash := slash_not_mem_openingInner hid
  have hsplit : before ++ opening.write id ++ behind =
      before ++ '/' :: (openingInner id ++ '/' :: behind) := by
    rw [write_opening]
    simp
  rw [hsplit] at h
  rcases closing_around_cases hu h with hfront | hback | ⟨-, hbegin⟩
  · exact .inl hfront
  · rcases (closing_around_iff hslash).1 hback with ⟨heq, -⟩ | hbehind
    · exact absurd heq (closingFront_ne_openingInner id)
    · exact .inr hbehind
  · exact absurd ((closingInner_prefix_iff hu hslash).1 hbegin) (closingInner_ne_openingInner u id)

/-- A closing marker in what comes behind an opening one is that of the region, if the body is
without markers, or comes later. -/
theorem closing_of_region {body rest : Text} (hu : IsId u) (hid : IsId id) (hbody : Keyless body)
    (h : closing.write u <:+: '/' :: (body ++ closing.write id ++ rest)) :
    u = id ∨ closing.write u <:+: '/' :: rest := by
  have hslash := slash_not_mem_closingInner hid
  have hsplit : '/' :: (body ++ closing.write id ++ rest) =
      ('/' :: body) ++ '/' :: (closingFront ++ '/' :: (closingInner id ++ '/' :: rest)) := by
    rw [write_closing]
    simp
  rw [hsplit] at h
  rcases closing_around_cases hu h with hfront | hback | ⟨-, hbegin⟩
  · exact absurd hfront (hbody.cons_slash.not_closing u)
  · rcases (closing_around_iff slash_not_mem_closingFront).1 hback with ⟨-, hbegin⟩ | hback
    · exact .inl (closingInner_injective ((closingInner_prefix_iff hu hslash).1 hbegin))
    · rcases (closing_around_iff hslash).1 hback with ⟨heq, -⟩ | hrest
      · exact absurd heq.symm (closingInner_ne_closingFront id)
      · exact .inr hrest
  · exact absurd ((closingInner_prefix_iff hu slash_not_mem_closingFront).1 hbegin)
      (closingInner_ne_closingFront u)

/-- No closing marker has the last slash of another one in its middle. -/
theorem closing_of_closing {before rest : Text} (hu : IsId u)
    (h : closing.write u <:+: before ++ closing.write id ++ rest) :
    closing.write u <:+: before ++ closing.write id ∨ closing.write u <:+: '/' :: rest := by
  have hsplit : before ++ closing.write id =
      (before ++ '/' :: (closingFront ++ '/' :: closingInner id)) ++ ['/'] := by
    rw [write_closing]
    simp
  rw [hsplit, List.append_assoc, List.singleton_append] at h
  rw [hsplit]
  rcases closing_around_cases hu h with hfront | hback | ⟨⟨front, hend⟩, -⟩
  · exact .inl hfront
  · exact .inr hback
  · -- The front of a marker ends in a bracket, what is before the slash in a star.
    have hlast := congrArg List.getLast? hend
    have hstars : closingInner id = "REGION=".toList ++ id ++ "]***".toList := rfl
    rw [List.getLast?_append_of_ne_nil _ (List.cons_ne_nil _ _), hstars, ← List.cons_append,
      ← List.append_assoc, ← List.cons_append, ← List.append_assoc,
      List.getLast?_append_of_ne_nil _ (by decide)] at hlast
    exact absurd hlast (by decide)

/-- A closing marker that does not share its first slash with the end of another one is the first
one of its id. -/
theorem not_closing_early {body : Text} (h : ¬ closing.write id <:+: body ++ ['/']) (hid : IsId id) :
    ¬ closing.write id <:+: body ++ (closing.write id).dropLast := by
  have hdrop : (closing.write id).dropLast = '/' :: (closingFront ++ '/' :: closingInner id) := by
    have hconcat : closing.write id =
        ('/' :: (closingFront ++ '/' :: closingInner id)) ++ ['/'] := by
      rw [write_closing]
      simp
    rw [hconcat, List.dropLast_concat]
  intro hclosing
  rw [hdrop] at hclosing
  rcases closing_around_cases hid hclosing with hbody | hclosing | ⟨-, hbegin⟩
  · exact h hbody
  · have := hclosing.length_le
    rw [write_closing] at this
    simp only [List.length_cons, List.length_append, List.length_nil] at this
    omega
  · have := (hbegin.trans (List.prefix_append _ ['/']))
    rw [List.append_assoc, List.cons_append] at this
    exact closingInner_ne_closingFront id
      ((closingInner_prefix_iff hid slash_not_mem_closingFront).1 this)

/-- A body without markers ends where its closing marker begins. -/
theorem Keyless.not_closing_early {body : Text} (h : Keyless body) (hid : IsId id) :
    ¬ closing.write id <:+: body ++ (closing.write id).dropLast :=
  Region.not_closing_early (h.not_closing id) hid

/-! ## Other bodies -/

/-- The piece with another body, if it is a region. -/
def Piece.refill (f : Text → Text → Text) : Piece → Piece
  | .region id body => .region id (f id body)
  | piece => piece

def textOf (cut : List Piece) : Text := cut.flatMap Piece.text

variable {f : Text → Text → Text} {t : Text} {cut : List Piece}

theorem slash_infix_opening (before id rest : Text) :
    '/' :: rest <:+: before ++ opening.write id ++ rest := by
  rw [write_opening]
  exact ⟨before ++ '/' :: openingInner id, [], by simp⟩

theorem slash_infix_closing (before id rest : Text) :
    '/' :: rest <:+: before ++ closing.write id ++ rest := by
  rw [write_closing]
  exact ⟨before ++ '/' :: (closingFront ++ '/' :: closingInner id), [], by simp⟩

theorem infix_opening_slash (before id rest : Text) :
    before ++ ['/'] <:+: before ++ opening.write id ++ rest := by
  rw [write_opening]
  exact ⟨[], openingInner id ++ '/' :: rest, by simp⟩

/-- New bodies without markers bring no closing marker with them, whatever stands in front. -/
theorem Cut.closing_of_refill (h : Cut t cut)
    (hf : ∀ id body, .region id body ∈ cut → f id body = body ∨ Keyless (f id body))
    (hu : IsId u) (front : Text)
    (hclosing : closing.write u <:+: front ++ textOf (cut.map (Piece.refill f))) :
    closing.write u <:+: front ++ t := by
  -- A marker may begin with a slash in front of the text, so the front differs from step to step.
  induction h generalizing front with
  | plain _ => simpa [textOf, Piece.refill, Piece.text] using hclosing
  | @region before id body rest cut hid hfirst hbody _ ih =>
    have hsplit : front ++ textOf ((Piece.plain before :: .region id body :: cut).map
        (Piece.refill f)) = front ++ before ++ opening.write id ++
          (f id body ++ closing.write id ++ textOf (cut.map (Piece.refill f))) := by
      simp [textOf, Piece.refill, Piece.text]
    rw [hsplit] at hclosing
    have hbehind : closing.write u <:+: '/' :: textOf (cut.map (Piece.refill f)) →
        closing.write u <:+: front ++ before ++ opening.write id ++ body ++ closing.write id ++
          rest := by
      intro hrest
      have hin := ih (fun other body hmem => hf other body (by simp [hmem])) ['/'] hrest
      exact hin.trans (slash_infix_closing _ id rest)
    have hwhole : front ++ (before ++ opening.write id ++ (body ++ closing.write id ++ rest)) =
        front ++ before ++ opening.write id ++ body ++ closing.write id ++ rest := by
      simp only [List.append_assoc]
    rw [hwhole]
    rcases hf id body (by simp) with hkept | hnew
    · rw [hkept, ← List.append_assoc, ← List.append_assoc] at hclosing
      rcases closing_of_closing hu hclosing with hfront | hrest
      · exact List.infix_append_of_infix_left hfront
      · exact hbehind hrest
    · rcases closing_of_opening hu hid hclosing with hfront | hback
      · rw [List.append_assoc _ body, List.append_assoc _ (body ++ _)]
        exact hfront.trans (infix_opening_slash _ _ _)
      · rcases closing_of_region hu hid hnew hback with rfl | hrest
        · exact ⟨front ++ before ++ opening.write u ++ body, rest, by simp⟩
        · exact hbehind hrest
  | @unclosed before id behind cut hid hfirst hbehind _ ih =>
    have hsplit : front ++ textOf ((Piece.plain before :: .unclosed id :: cut).map
        (Piece.refill f)) = front ++ before ++ opening.write id ++
          textOf (cut.map (Piece.refill f)) := by
      simp [textOf, Piece.refill, Piece.text]
    rw [hsplit] at hclosing
    rw [← List.append_assoc, ← List.append_assoc]
    rcases closing_of_opening hu hid hclosing with hfront | hback
    · exact hfront.trans (infix_opening_slash _ _ _)
    · have hin := ih (fun other body hmem => hf other body (by simp [hmem])) ['/'] hback
      exact hin.trans (slash_infix_opening _ id behind)

theorem Cut.refill (h : Cut t cut)
    (hf : ∀ id body, .region id body ∈ cut → f id body = body ∨ Keyless (f id body)) :
    Cut (textOf (cut.map (Piece.refill f))) (cut.map (Piece.refill f)) := by
  induction h with
  | plain hnone => simpa [textOf, Piece.refill, Piece.text] using Cut.plain hnone
  | @region before id body rest cut hid hfirst hbody _ ih =>
    have hrest := ih fun other body hmem => hf other body (by simp [hmem])
    have hnew : ¬ closing.write id <:+: f id body ++ (closing.write id).dropLast := by
      rcases hf id body (by simp) with hkept | hkeyless
      · rw [hkept]
        exact hbody
      · exact hkeyless.not_closing_early hid
    simpa [textOf, Piece.refill, Piece.text] using Cut.region hid hfirst hnew hrest
  | @unclosed before id behind cut hid hfirst hbehind hcut ih =>
    have hf' : ∀ other body, .region other body ∈ cut →
        f other body = body ∨ Keyless (f other body) :=
      fun other body hmem => hf other body (by simp [hmem])
    have hnew : ¬ closing.write id <:+: textOf (cut.map (Piece.refill f)) :=
      fun hclosing => hbehind (hcut.closing_of_refill hf' hid [] hclosing)
    simpa [textOf, Piece.refill, Piece.text] using Cut.unclosed hid hfirst hnew (ih hf')

/-! ## Reading the bodies again -/

theorem mem_all_iff {body : Text} : (id, body) ∈ all t ↔ .region id body ∈ pieces t := by
  rw [all, List.mem_filterMap]
  constructor
  · rintro ⟨piece, hpiece, hregion⟩
    cases piece with
    | region id body =>
      cases hregion
      exact hpiece
    | plain | unclosed => cases hregion
  · exact fun h => ⟨_, h, rfl⟩

theorem pieces_refill
    (hf : ∀ region ∈ all t, f region.1 region.2 = region.2 ∨ Keyless (f region.1 region.2)) :
    pieces (textOf ((pieces t).map (Piece.refill f))) = (pieces t).map (Piece.refill f) :=
  pieces_eq_of_cut ((cut_pieces t).refill fun id body hmem => hf (id, body) (mem_all_iff.2 hmem))

theorem all_refill
    (hf : ∀ region ∈ all t, f region.1 region.2 = region.2 ∨ Keyless (f region.1 region.2)) :
    all (textOf ((pieces t).map (Piece.refill f))) =
      (all t).map fun region => (region.1, f region.1 region.2) := by
  rw [all, pieces_refill hf, all, List.filterMap_map, List.map_filterMap]
  congr 1
  funext piece
  cases piece <;> rfl

theorem map_refill_congr {g : Text → Text → Text}
    (h : ∀ region ∈ all t, f region.1 region.2 = g region.1 region.2) :
    (pieces t).map (Piece.refill f) = (pieces t).map (Piece.refill g) := by
  apply List.map_congr_left
  intro piece hpiece
  cases piece with
  | region id body => exact congrArg (Piece.region id) (h (id, body) (mem_all_iff.2 hpiece))
  | plain | unclosed => rfl

theorem textOf_refill_eq_self (h : ∀ region ∈ all t, f region.1 region.2 = region.2) :
    textOf ((pieces t).map (Piece.refill f)) = t := by
  have hsame : Piece.refill (fun _ body => body) = id := by
    funext piece
    cases piece <;> rfl
  rw [map_refill_congr (g := fun _ body => body) h, hsame, List.map_id, textOf,
    flatMap_text_pieces]

end ViewBuilder.Region
