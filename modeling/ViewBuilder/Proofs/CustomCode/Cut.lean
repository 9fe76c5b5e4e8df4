import ViewBuilder.CustomCode.Regions
import ViewBuilder.Proofs.Text.Infix

/-!
# How a text is cut

`Region.Cut` says what cutting a text at its regions means, by where marks stand and not by how
they are searched for. Marks begin and end with a slash, and two of them may share one.
-/

namespace ViewBuilder

/-! ## Marks of any shape -/

namespace MarkShape

/-- What can stand in a mark as its id. -/
def IsId (id : Text) : Prop := id ≠ [] ∧ ∀ c ∈ id, isIdChar c = true

/-- What follows an id begins with no character of an id. -/
def Sharp (shape : MarkShape) : Prop := ∃ c rest, shape.tail = c :: rest ∧ isIdChar c = false

variable {shape : MarkShape} {t id rest : Text}

theorem write_ne_nil (shape : MarkShape) (id : Text) : shape.write id ≠ [] := by
  intro h
  exact shape.lead_ne_nil (List.append_eq_nil_iff.1 (List.append_eq_nil_iff.1 h).1).1

theorem start?_eq_some_iff (hs : shape.Sharp) :
    shape.start? t = some (id, rest) ↔ t = shape.write id ++ rest ∧ IsId id := by
  constructor
  · exact eq_of_start?
  · rintro ⟨rfl, hne, hid⟩
    obtain ⟨c, after, htail, hc⟩ := hs
    have hlead : Text.afterLead? shape.lead (shape.write id ++ rest) =
        some (id ++ c :: (after ++ rest)) := by
      rw [Text.afterLead?_eq_some_iff, write, htail]
      simp
    have htake : (id ++ c :: (after ++ rest)).takeWhile isIdChar = id := by
      rw [List.takeWhile_append_of_pos hid, List.takeWhile_cons_of_neg (by simp [hc]),
        List.append_nil]
    have hdrop : (id ++ c :: (after ++ rest)).dropWhile isIdChar = c :: (after ++ rest) := by
      rw [List.dropWhile_append_of_pos hid, List.dropWhile_cons_of_neg (by simp [hc])]
    have hrest : Text.afterLead? shape.tail (c :: (after ++ rest)) = some rest := by
      rw [Text.afterLead?_eq_some_iff, htail]
      rfl
    rw [start?, hlead, Option.bind_some]
    simp [htake, hdrop, hrest, hne]

theorem find?_eq_none_iff (hs : shape.Sharp) :
    shape.find? t = none ↔ ∀ id, IsId id → ¬ shape.write id <:+: t := by
  induction t with
  | nil =>
    simp only [find?, true_iff, List.infix_nil]
    intro id _ hnil
    exact shape.write_ne_nil id hnil
  | cons c t ih =>
    have hstart : shape.start? (c :: t) = none ↔ ∀ id, IsId id → ¬ shape.write id <+: c :: t := by
      rw [Option.eq_none_iff_forall_ne_some]
      constructor
      · rintro h id hid ⟨rest, hrest⟩
        exact h (id, rest) ((start?_eq_some_iff hs).2 ⟨hrest.symm, hid⟩)
      · rintro h ⟨id, rest⟩ hsome
        obtain ⟨heq, hid⟩ := (start?_eq_some_iff hs).1 hsome
        exact h id hid ⟨rest, heq.symm⟩
    have hsplit : (∀ id, IsId id → ¬ shape.write id <:+: c :: t) ↔
        shape.start? (c :: t) = none ∧ shape.find? t = none := by
      rw [hstart, ih]
      simp only [List.infix_cons_iff, not_or]
      exact ⟨fun h => ⟨fun id hid => (h id hid).1, fun id hid => (h id hid).2⟩,
        fun h id hid => ⟨h.1 id hid, h.2 id hid⟩⟩
    rw [hsplit, find?]
    split
    · rename_i hsome
      simp [hsome]
    · rename_i hnone
      simp [hnone]

end MarkShape

namespace Region

open Text MarkShape

/-! ## The two markers -/

/-- What stands between the slashes of an opening marker. -/
def openingInner (id : Text) : Text := "***[REGION=" ++ id ++ "]***"

/-- What stands between the first two slashes of a closing marker. -/
def closingFront : Text := "***["

/-- What stands between the last two slashes of a closing marker. -/
def closingInner (id : Text) : Text := "REGION=" ++ id ++ "]***"

theorem write_opening (id : Text) : opening.write id = '/' :: (openingInner id ++ ['/']) := by
  have hlead : opening.lead = '/' :: "***[REGION=".toList := by decide
  have htail : opening.tail = "]***".toList ++ ['/'] := by decide
  unfold MarkShape.write openingInner
  rw [hlead, htail]
  simp only [List.cons_append, List.append_assoc]

theorem write_closing (id : Text) :
    closing.write id = '/' :: (closingFront ++ '/' :: (closingInner id ++ ['/'])) := by
  have hlead : closing.lead = '/' :: (closingFront ++ '/' :: "REGION=".toList) := by decide
  have htail : closing.tail = "]***".toList ++ ['/'] := by decide
  unfold MarkShape.write closingInner
  rw [hlead, htail]
  simp only [List.cons_append, List.append_assoc]

theorem sharp_opening : opening.Sharp := ⟨']', "***/".toList, rfl, by decide⟩

theorem slash_not_mem_id {id : Text} (h : IsId id) : '/' ∉ id := by
  intro hmem
  exact absurd (h.2 _ hmem) (by decide)

theorem slash_not_mem_openingInner {id : Text} (h : IsId id) : '/' ∉ openingInner id := by
  unfold openingInner
  simp only [List.mem_append, not_or]
  exact ⟨⟨by decide, slash_not_mem_id h⟩, by decide⟩

theorem slash_not_mem_closingFront : '/' ∉ closingFront := by decide

theorem slash_not_mem_closingInner {id : Text} (h : IsId id) : '/' ∉ closingInner id := by
  unfold closingInner
  simp only [List.mem_append, not_or]
  exact ⟨⟨by decide, slash_not_mem_id h⟩, by decide⟩

/-! ## Opening markers -/

/-- A text holds an opening marker. -/
def Opens (t : Text) : Prop := ∃ id, IsId id ∧ opening.write id <:+: t

theorem find?_opening_eq_none_iff {t : Text} : opening.find? t = none ↔ ¬ Opens t := by
  rw [find?_eq_none_iff sharp_opening, Opens]
  simp

theorem not_opens_slash : ¬ Opens ['/'] := by
  rintro ⟨id, -, hplace⟩
  have := hplace.length_le
  rw [write_opening] at this
  simp at this

theorem not_opens_of_no_slash {t : Text} (h : '/' ∉ t) : ¬ Opens t := by
  rintro ⟨id, -, hplace⟩
  rw [write_opening] at hplace
  exact h (hplace.subset List.mem_cons_self)

theorem not_opens_nil : ¬ Opens [] := not_opens_of_no_slash List.not_mem_nil

/-- The first opening marker is the one before which none ends. -/
theorem find?_opening_eq_some_iff {t before id rest : Text} :
    opening.find? t = some (before, id, rest) ↔
      t = before ++ opening.write id ++ rest ∧ IsId id ∧ ¬ Opens (before ++ ['/']) := by
  constructor
  · intro h
    obtain ⟨heq, hid⟩ := eq_of_find? h
    refine ⟨heq, hid, ?_⟩
    induction t generalizing before with
    | nil => cases h
    | cons c t ih =>
      rw [find?] at h
      split at h
      · cases h
        exact not_opens_slash
      · rename_i hnone
        simp only [Option.map_eq_some_iff, Prod.mk.injEq] at h
        obtain ⟨⟨front, other, back⟩, hfind, rfl, rfl, rfl⟩ := h
        rintro ⟨other, hother, hplace⟩
        rcases List.infix_cons_iff.1 hplace with hbegin | hplace
        · have hstart : opening.write other <+: c :: t := by
            refine hbegin.trans ?_
            rw [heq, write_opening]
            simp
          obtain ⟨after, hafter⟩ := hstart
          rw [(start?_eq_some_iff sharp_opening).2 ⟨hafter.symm, hother⟩] at hnone
          cases hnone
        · exact ih hfind (List.cons.inj heq).2 ⟨other, hother, hplace⟩
  · rintro ⟨rfl, hid, hfirst⟩
    induction before with
    | nil =>
      have hstart : opening.start? (opening.write id ++ rest) = some (id, rest) :=
        (start?_eq_some_iff sharp_opening).2 ⟨rfl, hid⟩
      rw [write_opening, List.cons_append] at hstart
      rw [List.nil_append, write_opening, List.cons_append, find?, hstart]
    | cons c before ih =>
      have hnone : opening.start? (c :: (before ++ opening.write id ++ rest)) = none := by
        rw [Option.eq_none_iff_forall_ne_some]
        rintro ⟨other, after⟩ hsome
        obtain ⟨heq, hother⟩ := (start?_eq_some_iff sharp_opening).1 hsome
        apply hfirst
        refine ⟨other, hother, List.IsPrefix.isInfix ?_⟩
        rw [write_opening] at heq ⊢
        rw [write_opening] at heq
        simp only [List.cons_append, List.cons.injEq, List.append_assoc] at heq
        rw [List.cons_append, heq.1, List.cons_prefix_cons]
        have hbegin : openingInner other ++ ['/'] <+:
            before ++ '/' :: (openingInner id ++ '/' :: rest) :=
          ⟨after, by simpa using heq.2.symm⟩
        exact ⟨rfl, prefix_around (slash_not_mem_openingInner hother) hbegin⟩
      have hbefore : ¬ Opens (before ++ ['/']) := by
        rintro ⟨other, hother, hplace⟩
        exact hfirst ⟨other, hother, List.infix_cons hplace⟩
      rw [List.cons_append, List.cons_append, find?, hnone, ih hbefore]
      rfl

/-! ## Cutting -/

/-- The pieces of a text. A region ends at the first closing marker of its id. -/
inductive Cut : Text → List Piece → Prop where
  | plain {t : Text} : ¬ Opens t → Cut t [.plain t]
  | region {before id body rest : Text} {pieces : List Piece} :
      IsId id → ¬ Opens (before ++ ['/']) →
      ¬ closing.write id <:+: body ++ (closing.write id).dropLast → Cut rest pieces →
      Cut (before ++ opening.write id ++ (body ++ closing.write id ++ rest))
        (.plain before :: .region id body :: pieces)
  | unclosed {before id behind : Text} {pieces : List Piece} :
      IsId id → ¬ Opens (before ++ ['/']) → ¬ closing.write id <:+: behind → Cut behind pieces →
      Cut (before ++ opening.write id ++ behind) (.plain before :: .unclosed id :: pieces)

theorem cut_pieces (t : Text) : Cut t (pieces t) := by
  fun_induction pieces t with
  | case1 t hnone => exact .plain (find?_opening_eq_none_iff.1 hnone)
  | case2 t before id behind hfound body rest hclosed ih =>
    obtain ⟨rfl, hid, hfirst⟩ := find?_opening_eq_some_iff.1 hfound
    obtain ⟨rfl, hbody⟩ := (cut?_eq_some_iff (closing.write_ne_nil id)).1 hclosed
    exact .region hid hfirst hbody ih
  | case3 t before id behind hfound hclosed ih =>
    obtain ⟨rfl, hid, hfirst⟩ := find?_opening_eq_some_iff.1 hfound
    exact .unclosed hid hfirst (cut?_eq_none_iff.1 hclosed) ih

theorem pieces_eq (t : Text) :
    pieces t = match opening.find? t with
      | none => [.plain t]
      | some (before, id, behind) =>
        match cut? (closing.write id) behind with
        | some (body, rest) => .plain before :: .region id body :: pieces rest
        | none => .plain before :: .unclosed id :: pieces behind := by
  rw [pieces]
  split
  · rename_i hfound
    rw [hfound]
  · rename_i hfound
    rw [hfound]
    dsimp only
    split
    · rename_i hclosed
      rw [hclosed]
    · rename_i hclosed
      rw [hclosed]

theorem pieces_eq_of_cut {t : Text} {cut : List Piece} (h : Cut t cut) : pieces t = cut := by
  induction h with
  | plain hnone => rw [pieces_eq, find?_opening_eq_none_iff.2 hnone]
  | @region before id body rest cut hid hfirst hbody _ ih =>
    have hfound : opening.find? (before ++ opening.write id ++ (body ++ closing.write id ++ rest)) =
        some (before, id, body ++ closing.write id ++ rest) :=
      find?_opening_eq_some_iff.2 ⟨rfl, hid, hfirst⟩
    have hclosed : cut? (closing.write id) (body ++ closing.write id ++ rest) = some (body, rest) :=
      (cut?_eq_some_iff (closing.write_ne_nil id)).2 ⟨rfl, hbody⟩
    rw [pieces_eq, hfound]
    dsimp only
    rw [hclosed]
    dsimp only
    rw [ih]
  | @unclosed before id behind cut hid hfirst hbehind _ ih =>
    have hfound : opening.find? (before ++ opening.write id ++ behind) = some (before, id, behind) :=
      find?_opening_eq_some_iff.2 ⟨rfl, hid, hfirst⟩
    rw [pieces_eq, hfound]
    dsimp only
    rw [cut?_eq_none_iff.2 hbehind]
    dsimp only
    rw [ih]

end Region

end ViewBuilder
