import ViewBuilder.Proofs.CustomCode.Refill
import ViewBuilder.Proofs.Text.Words

/-!
# Regions of a text inside another

Text around a text does not change its regions when it brings no markers and is set off by a
character that no marker holds. Trimming takes such text away.
-/

namespace ViewBuilder.Region

open Text MarkShape

/-! ## Characters outside of markers -/

/-- No marker holds the character. -/
def Foreign (c : Char) : Prop :=
  ∀ id, IsId id → c ∉ opening.write id ∧ c ∉ closing.write id

theorem foreign_of {c : Char} (hid : isIdChar c = false) (hc : c ∉ "/*[]=".toList) : Foreign c := by
  have hfixed : (opening.lead ++ opening.tail ++ closing.lead ++ closing.tail).all
      (fun x => "/*[]=".toList.contains x || isIdChar x) = true := by decide
  have hout : c ∉ opening.lead ++ opening.tail ++ closing.lead ++ closing.tail := by
    intro hmem
    have h := List.all_eq_true.1 hfixed c hmem
    rw [hid, Bool.or_false, List.contains_iff_mem] at h
    exact hc h
  simp only [List.mem_append, not_or] at hout
  obtain ⟨⟨⟨hopening, hopeningEnd⟩, hclosing⟩, hclosingEnd⟩ := hout
  intro id hisId
  have hnot : c ∉ id := by
    intro hmem
    have := hisId.2 c hmem
    rw [hid] at this
    cases this
  unfold MarkShape.write
  simp only [List.mem_append, not_or]
  exact ⟨⟨⟨hopening, hnot⟩, hopeningEnd⟩, ⟨hclosing, hnot⟩, hclosingEnd⟩

theorem isBlank_of_isIdChar {c : Char} (h : isIdChar c = true) : isBlank c = false := by
  have hcases : c.isAlphanum = true ∨ c = '_' ∨ c = '.' ∨ c = '-' := by
    simpa [isIdChar, or_assoc] using h
  rcases hcases with halnum | rfl | rfl | rfl
  · exact isBlank_of_isAlphanum halnum
  · decide
  · decide
  · decide

theorem foreign_of_isBlank {c : Char} (h : isBlank c = true) : Foreign c := by
  apply foreign_of
  · cases hid : isIdChar c with
    | false => rfl
    | true =>
      rw [isBlank_of_isIdChar hid] at h
      cases h
  · intro hmem
    have hnone : "/*[]=".toList.any isBlank = false := by decide
    exact List.any_eq_false.1 hnone c hmem h

/-! ## Text in front and text behind -/

variable {c : Char} {t pre post : Text}

theorem opens_around_iff (hc : Foreign c) : Opens (pre ++ c :: t) ↔ Opens pre ∨ Opens t := by
  constructor
  · rintro ⟨id, hid, hplace⟩
    rcases (infix_around_iff (hc id hid).1).1 hplace with h | h
    · exact .inl ⟨id, hid, h⟩
    · exact .inr ⟨id, hid, h⟩
  · rintro (⟨id, hid, h⟩ | ⟨id, hid, h⟩)
    · exact ⟨id, hid, (infix_around_iff (hc id hid).1).2 (.inl h)⟩
    · exact ⟨id, hid, (infix_around_iff (hc id hid).1).2 (.inr h)⟩

theorem opens_append_iff (hpost : '/' ∉ post) : Opens (t ++ post) ↔ Opens t := by
  constructor
  · rintro ⟨id, hid, hplace⟩
    rcases List.infix_append_iff_ne_nil.1 hplace with h | h | ⟨w₁, w₂, -, hne, heq, -, hbegin⟩
    · exact ⟨id, hid, h⟩
    · exact absurd ⟨id, hid, h⟩ (not_opens_of_no_slash hpost)
    · have hlast : '/' = w₂.getLast hne := by
        have hconcat : opening.write id = '/' :: openingInner id ++ ['/'] := write_opening id
        have := congrArg List.getLast? (hconcat.symm.trans heq)
        rw [List.getLast?_concat, List.getLast?_append_of_ne_nil _ hne,
          List.getLast?_eq_some_getLast hne] at this
        exact Option.some.inj this
      exact absurd (hbegin.subset (hlast ▸ List.getLast_mem hne)) hpost
  · rintro ⟨id, hid, hplace⟩
    exact ⟨id, hid, List.infix_append_of_infix_left hplace⟩

/-- Two texts do not open a region across a text without a slash that no marker can hold. -/
theorem not_opens_append {m : Text} (hpre : ¬ Opens pre) (hslash : '/' ∉ m)
    (hm : ∃ c ∈ m, Foreign c) (hpost : ¬ Opens post) : ¬ Opens (pre ++ (m ++ post)) := by
  obtain ⟨c, hmem, hc⟩ := hm
  obtain ⟨front, back, rfl⟩ := List.append_of_mem hmem
  simp only [List.mem_append, List.mem_cons, not_or] at hslash
  have hsplit : pre ++ (front ++ c :: back ++ post) = (pre ++ front) ++ c :: (back ++ post) := by
    simp
  rw [hsplit, opens_around_iff hc, opens_append_iff hslash.1]
  rintro (h | ⟨id, hid, hplace⟩)
  · exact hpre h
  · rw [write_opening, infix_append_iff_of_not_mem hslash.2.2, ← write_opening] at hplace
    exact hpost ⟨id, hid, hplace⟩

theorem Cut.behind {cut : List Piece} (h : Cut t cut) (hpre : ¬ Opens pre) (hc : Foreign c) :
    ∃ other, Cut (pre ++ c :: t) other ∧
      other.filterMap Piece.region? = cut.filterMap Piece.region? := by
  have hopens : ∀ {u : Text}, ¬ Opens u → ¬ Opens (pre ++ c :: u) := by
    intro u hu hopens
    rcases (opens_around_iff hc).1 hopens with h | h
    · exact hpre h
    · exact hu h
  cases h with
  | plain hnone => exact ⟨_, .plain (hopens hnone), rfl⟩
  | @region before id body rest cut hid hfirst hbody hrest =>
    have hnew : ¬ Opens (pre ++ c :: before ++ ['/']) := by simpa using hopens hfirst
    exact ⟨.plain (pre ++ c :: before) :: .region id body :: cut,
      by simpa using Cut.region hid hnew hbody hrest, rfl⟩
  | @unclosed before id behind cut hid hfirst hbehind hrest =>
    have hnew : ¬ Opens (pre ++ c :: before ++ ['/']) := by simpa using hopens hfirst
    exact ⟨.plain (pre ++ c :: before) :: .unclosed id :: cut,
      by simpa using Cut.unclosed hid hnew hbehind hrest, rfl⟩

theorem Cut.before {cut : List Piece} (h : Cut t cut) (hc : Foreign c) (hpost : Keyless post) :
    ∃ other, Cut (t ++ c :: post) other ∧
      other.filterMap Piece.region? = cut.filterMap Piece.region? := by
  induction h with
  | @plain t hnone =>
    refine ⟨_, .plain ?_, rfl⟩
    intro hopens
    rcases (opens_around_iff hc).1 hopens with h | ⟨id, -, h⟩
    · exact hnone h
    · exact hpost ((key_infix_opening id).trans h)
  | @region before id body rest cut hid hfirst hbody _ ih =>
    obtain ⟨other, hother, heq⟩ := ih
    refine ⟨.plain before :: .region id body :: other, ?_, ?_⟩
    · simpa using Cut.region hid hfirst hbody hother
    · exact congrArg ((id, body) :: ·) heq
  | @unclosed before id behind cut hid hfirst hbehind _ ih =>
    obtain ⟨other, hother, heq⟩ := ih
    have hnew : ¬ closing.write id <:+: behind ++ c :: post := by
      intro hclosing
      rcases (infix_around_iff (hc id hid).2).1 hclosing with h | h
      · exact hbehind h
      · exact hpost ((key_infix_closing id).trans h)
    refine ⟨.plain before :: .unclosed id :: other, ?_, ?_⟩
    · simpa using Cut.unclosed hid hfirst hnew hother
    · exact heq

theorem all_behind (hpre : ¬ Opens pre) (hc : Foreign c) : all (pre ++ c :: t) = all t := by
  obtain ⟨other, hother, heq⟩ := (cut_pieces t).behind hpre hc
  rw [all, pieces_eq_of_cut hother, heq, all]

theorem all_before (hc : Foreign c) (hpost : Keyless post) : all (t ++ c :: post) = all t := by
  obtain ⟨other, hother, heq⟩ := (cut_pieces t).before hc hpost
  rw [all, pieces_eq_of_cut hother, heq, all]

/-! ## Blank text around -/

theorem all_behind_blank (hpre : ∀ x ∈ pre, isBlank x = true) : all (pre ++ t) = all t := by
  induction pre with
  | nil => rfl
  | cons x pre ih =>
    rw [List.forall_mem_cons] at hpre
    rw [← ih hpre.2]
    exact all_behind not_opens_nil (foreign_of_isBlank hpre.1)

theorem all_before_blank (hpost : ∀ x ∈ post, isBlank x = true) : all (t ++ post) = all t := by
  cases post with
  | nil => rw [List.append_nil]
  | cons x post =>
    rw [List.forall_mem_cons] at hpost
    refine all_before (foreign_of_isBlank hpost.1) (keyless_of_not_mem fun hmem => ?_)
    exact absurd (hpost.2 'R' hmem) (by decide)

theorem all_trim (t : Text) : all (trim t) = all t := by
  obtain ⟨pre, post, heq, hpre, hpost⟩ := exists_trim t
  conv => rhs; rw [heq]
  rw [all_before_blank hpost, all_behind_blank hpre]

end ViewBuilder.Region
