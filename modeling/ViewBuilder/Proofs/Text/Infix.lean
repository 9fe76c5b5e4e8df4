import Mathlib.Data.List.Infix
import ViewBuilder.Text

/-!
# Where a text stands in another

`cut?` finds the first place of a mark. The other lemmas say where a mark can stand in a text that
is put together around a character: such a mark is before the character, behind it, or holds it.
-/

namespace ViewBuilder.Text

/-! ## The first place -/

theorem prefix_of_afterLead? {lead t : Text} : (∃ rest, afterLead? lead t = some rest) ↔ lead <+: t := by
  constructor
  · rintro ⟨rest, h⟩
    exact ⟨rest, (afterLead?_eq_some_iff.1 h).symm⟩
  · rintro ⟨rest, h⟩
    exact ⟨rest, afterLead?_eq_some_iff.2 h.symm⟩

theorem cut?_eq_none_iff {mark t : Text} : cut? mark t = none ↔ ¬ mark <:+: t := by
  induction t with
  | nil =>
    rw [cut?, Option.map_eq_none_iff, Option.eq_none_iff_forall_ne_some, List.infix_nil,
      ← List.prefix_nil, ← prefix_of_afterLead?, not_exists]
  | cons c t ih =>
    rw [cut?, List.infix_cons_iff, not_or, ← prefix_of_afterLead?, ← ih]
    split
    · rename_i rest hrest
      simp [hrest]
    · rename_i hnone
      simp [hnone]

theorem exists_cut?_of_infix {mark t : Text} (h : mark <:+: t) :
    ∃ before rest, cut? mark t = some (before, rest) := by
  cases hcut : cut? mark t with
  | none => exact absurd h (cut?_eq_none_iff.1 hcut)
  | some found => exact ⟨found.1, found.2, rfl⟩

theorem not_infix_of_cut? {mark t before rest : Text} (hm : mark ≠ [])
    (h : cut? mark t = some (before, rest)) : ¬ mark <:+: before ++ mark.dropLast := by
  have hlength : mark.dropLast.length < mark.length := by
    have := List.length_pos_iff.2 hm
    rw [List.length_dropLast]
    omega
  have hshort : ¬ mark <:+: mark.dropLast := fun hmark => by
    have := hmark.length_le
    omega
  have heq := eq_of_cut? h
  induction t generalizing before with
  | nil =>
    rw [List.append_assoc, List.nil_eq, List.append_eq_nil_iff, List.append_eq_nil_iff] at heq
    exact absurd heq.2.1 hm
  | cons c t ih =>
    rw [cut?] at h
    split at h
    · cases h
      exact hshort
    · rename_i hnone
      simp only [Option.map_eq_some_iff, Prod.mk.injEq] at h
      obtain ⟨⟨front, back⟩, hcut, rfl, rfl⟩ := h
      rw [List.cons_append, List.infix_cons_iff, not_or]
      refine ⟨fun hbegin => ?_, ih hcut (eq_of_cut? hcut)⟩
      obtain ⟨other, hother⟩ : ∃ other, afterLead? mark (c :: t) = some other := by
        rw [prefix_of_afterLead?, heq]
        refine hbegin.trans ?_
        rw [List.append_assoc, ← List.cons_append, List.prefix_append_right_inj]
        exact (List.dropLast_prefix mark).trans (List.prefix_append mark back)
      rw [hnone] at hother
      cases hother

theorem cut?_eq_some_iff {mark t before rest : Text} (hm : mark ≠ []) :
    cut? mark t = some (before, rest) ↔
      t = before ++ mark ++ rest ∧ ¬ mark <:+: before ++ mark.dropLast := by
  constructor
  · intro h
    exact ⟨eq_of_cut? h, not_infix_of_cut? hm h⟩
  · rintro ⟨rfl, hfirst⟩
    induction before with
    | nil =>
      cases mark with
      | nil => exact absurd rfl hm
      | cons c mark =>
        have hlead : afterLead? (c :: mark) (c :: (mark ++ rest)) = some rest :=
          afterLead?_eq_some_iff.2 rfl
        rw [List.nil_append, List.cons_append, cut?, hlead]
    | cons c before ih =>
      rw [List.cons_append, List.infix_cons_iff, not_or] at hfirst
      have hlead : afterLead? mark (c :: (before ++ mark ++ rest)) = none := by
        rw [Option.eq_none_iff_forall_ne_some]
        intro other hother
        apply hfirst.1
        have hlength := List.length_pos_iff.2 hm
        refine List.prefix_of_prefix_length_le (prefix_of_afterLead?.1 ⟨other, hother⟩) ?_ ?_
        · rw [List.append_assoc, ← List.cons_append, ← List.cons_append,
            List.prefix_append_right_inj]
          exact (List.dropLast_prefix mark).trans (List.prefix_append mark rest)
        · simp only [List.length_cons, List.length_append, List.length_dropLast]
          omega
      rw [List.cons_append, List.cons_append, cut?, hlead, ih hfirst.2]
      rfl

/-! ## The first place, by all places -/

section
variable {mark before rest t : Text}

/-- A text, followed by a mark, holds the mark only at its end. -/
def OnlyAtEnd (mark before : Text) : Prop :=
  ∀ front rest, before ++ mark = front ++ mark ++ rest → rest = []

theorem onlyAtEnd_iff (hm : mark ≠ []) :
    OnlyAtEnd mark before ↔ ¬ mark <:+: before ++ mark.dropLast := by
  obtain ⟨front, last, hmark⟩ := (List.eq_nil_or_concat' mark).resolve_left hm
  have hdrop : mark.dropLast = front := by rw [hmark, List.dropLast_concat]
  have hbefore : before ++ mark = before ++ mark.dropLast ++ [last] := by
    rw [hdrop, List.append_assoc, ← hmark]
  constructor
  · rintro h ⟨a, b, hab⟩
    have hrest := h a (b ++ [last]) (by rw [hbefore, ← hab, List.append_assoc _ b])
    exact absurd hrest (by simp)
  · intro h a b hab
    by_contra hne
    obtain ⟨b, c, rfl⟩ := (List.eq_nil_or_concat' b).resolve_left hne
    rw [hbefore, ← List.append_assoc] at hab
    exact h ⟨a, b, (List.append_inj' hab rfl).1.symm⟩

theorem cut?_nil (t : Text) : cut? [] t = some ([], t) := by
  cases t <;> rfl

theorem cut?_eq_some_iff_onlyAtEnd :
    cut? mark t = some (before, rest) ↔ t = before ++ mark ++ rest ∧ OnlyAtEnd mark before := by
  by_cases hm : mark = []
  · subst hm
    rw [cut?_nil]
    constructor
    · intro h
      cases h
      exact ⟨by simp, fun _ _ h => (List.append_eq_nil_iff.1 h.symm).2⟩
    · rintro ⟨rfl, h⟩
      obtain rfl := h [] before (by simp)
      simp
  · rw [cut?_eq_some_iff hm, onlyAtEnd_iff hm]

/-- The first place leaves the most behind it. -/
theorem OnlyAtEnd.suffix {front behind : Text} (h : OnlyAtEnd mark before)
    (heq : front ++ mark ++ behind = before ++ mark ++ rest) : behind <:+ rest := by
  have hbehind : behind <:+ before ++ mark ++ rest := ⟨front ++ mark, heq⟩
  refine List.suffix_of_suffix_length_le hbehind (List.suffix_append _ _) ?_
  by_contra hlong
  have hlength := congrArg List.length heq
  simp only [List.length_append] at hlength
  have hprefix : front ++ mark <+: before ++ mark := by
    refine List.prefix_of_prefix_length_le ⟨behind, heq⟩ (List.prefix_append _ _) ?_
    simp only [List.length_append]
    omega
  obtain ⟨more, hmore⟩ := hprefix
  have hnil := h front more hmore.symm
  rw [hnil, List.append_nil] at hmore
  have := congrArg List.length hmore
  simp only [List.length_append] at this
  omega

theorem OnlyAtEnd.not_infix (h : OnlyAtEnd mark before) (hm : mark ≠ []) : ¬ mark <:+: before := by
  rw [onlyAtEnd_iff hm] at h
  exact fun hmark => h (List.infix_append_of_infix_left hmark)

/-- A mark whose first character is nowhere else in it cannot begin before its place. -/
theorem onlyAtEnd_of_not_infix {c : Char} {w : Text} (hc : c ∉ w) (h : ¬ c :: w <:+: before) :
    OnlyAtEnd (c :: w) before := by
  rw [onlyAtEnd_iff (List.cons_ne_nil c w), List.infix_append_iff_ne_nil]
  rintro (hbefore | hdrop | ⟨front, back, hfront, hback, heq, -, hbegin⟩)
  · exact h hbefore
  · have := hdrop.length_le
    rw [List.length_dropLast, List.length_cons] at this
    omega
  · -- The part behind would begin with the first character again.
    obtain ⟨d, front, rfl⟩ := List.exists_cons_of_ne_nil hfront
    obtain ⟨e, back, rfl⟩ := List.exists_cons_of_ne_nil hback
    obtain ⟨rfl, rfl⟩ := List.cons.inj heq
    have hhead := hbegin.trans (List.dropLast_prefix _)
    rw [(List.cons_prefix_cons.1 hhead).1] at hc
    exact hc (by simp)

/-- Text without a mark can stand in front, if what follows begins with no character of the mark. -/
theorem OnlyAtEnd.append {front more : Text} {c : Char} (h : OnlyAtEnd mark before)
    (hfront : ¬ mark <:+: front) (hbegin : before ++ mark = c :: more) (hc : c ∉ mark) :
    OnlyAtEnd mark (front ++ before) := by
  have hm : mark ≠ [] := by
    rintro rfl
    exact hfront List.nil_infix
  rw [onlyAtEnd_iff hm] at h ⊢
  rw [List.append_assoc, List.infix_append_iff_ne_nil]
  rintro (hmark | hmark | ⟨left, right, -, hright, rfl, -, hplace⟩)
  · exact hfront hmark
  · exact h hmark
  · obtain ⟨d, right, rfl⟩ := List.exists_cons_of_ne_nil hright
    have hwhole : d :: right <+: before ++ (left ++ d :: right) :=
      hplace.trans ((List.prefix_append_right_inj _).2 (List.dropLast_prefix _))
    rw [hbegin, List.cons_prefix_cons] at hwhole
    obtain rfl := hwhole.1
    exact hc (by simp)

end

/-! ## Around a character -/

variable {d : Char} {w a b : Text}

theorem infix_around_iff (hd : d ∉ w) : w <:+: a ++ d :: b ↔ w <:+: a ∨ w <:+: b := by
  rw [List.infix_append_iff_ne_nil]
  constructor
  · rintro (h | h | ⟨w₁, w₂, -, hne, rfl, -, hbegin⟩)
    · exact .inl h
    · rcases List.infix_cons_iff.1 h with hbegin | h
      · cases w with
        | nil => exact .inl List.nil_infix
        | cons c w =>
          obtain rfl := (List.cons_prefix_cons.1 hbegin).1
          exact absurd List.mem_cons_self hd
      · exact .inr h
    · cases w₂ with
      | nil => exact absurd rfl hne
      | cons c w₂ =>
        obtain rfl := (List.cons_prefix_cons.1 hbegin).1
        exact absurd (by simp) hd
  · rintro (h | h)
    · exact .inl h
    · exact .inr (.inl (List.infix_cons h))

/-- Around a character, a text stands before it or up to it, from it on, or on both sides. -/
theorem infix_around_cases (h : w <:+: a ++ d :: b) :
    w <:+: a ++ [d] ∨ w <:+: d :: b ∨
      ∃ w₁ w₂, w₁ ≠ [] ∧ w₂ ≠ [] ∧ w = w₁ ++ d :: w₂ ∧ w₁ <:+ a ∧ w₂ <+: b := by
  rcases List.infix_append_iff_ne_nil.1 h with h | h | ⟨w₁, w₂, hne₁, hne₂, rfl, hsuffix, hbegin⟩
  · exact .inl (List.infix_append_of_infix_left h)
  · exact .inr (.inl h)
  · cases w₂ with
    | nil => exact absurd rfl hne₂
    | cons c w₂ =>
      obtain ⟨rfl, hback⟩ := List.cons_prefix_cons.1 hbegin
      by_cases hw₂ : w₂ = []
      · obtain ⟨front, rfl⟩ := hsuffix
        subst hw₂
        exact .inl ⟨front, [], by simp⟩
      · exact .inr (.inr ⟨w₁, w₂, hne₁, hw₂, rfl, hsuffix, hback⟩)

theorem eq_of_cons_concat_eq {s w₁ w₂ : Text} (h : d :: (s ++ [d]) = w₁ ++ d :: w₂) (h₁ : w₁ ≠ [])
    (h₂ : w₂ ≠ []) : ∃ u v, w₁ = d :: u ∧ w₂ = v ++ [d] ∧ s = u ++ d :: v := by
  cases w₁ with
  | nil => exact absurd rfl h₁
  | cons c u =>
    obtain ⟨v, c', rfl⟩ := (List.eq_nil_or_concat' w₂).resolve_left h₂
    rw [List.cons_append, List.cons.injEq, ← List.cons_append, ← List.append_assoc] at h
    obtain ⟨rfl, h⟩ := h
    obtain ⟨hs, hd⟩ := List.append_inj' h rfl
    obtain rfl := List.singleton_inj.1 hd
    exact ⟨u, v, rfl, rfl, hs⟩

/-- A text up to a character is the start of another one exactly when it is its text up to there. -/
theorem prefix_around_iff {p r v s : Text} (hs : d ∉ s) (hp : d ∉ p) :
    s ++ d :: r <+: p ++ d :: v ↔ s = p ∧ r <+: v := by
  induction s generalizing p with
  | nil =>
    cases p with
    | nil => simp
    | cons c p =>
      simp only [List.mem_cons, not_or] at hp
      simp [hp.1]
  | cons c s ih =>
    simp only [List.mem_cons, not_or] at hs
    cases p with
    | nil => simp [Ne.symm hs.1]
    | cons c' p =>
      simp only [List.mem_cons, not_or] at hp
      rw [List.cons_append, List.cons_append, List.cons_prefix_cons, ih hs.2 hp.2, List.cons.injEq,
        and_assoc]

theorem prefix_around {s : Text} (hs : d ∉ s) (h : s ++ [d] <+: a ++ d :: b) :
    s ++ [d] <+: a ++ [d] := by
  induction a generalizing s with
  | nil =>
    cases s with
    | nil => exact List.prefix_rfl
    | cons c s =>
      obtain rfl := (List.cons_prefix_cons.1 h).1
      exact absurd List.mem_cons_self hs
  | cons c a ih =>
    cases s with
    | nil =>
      obtain rfl := (List.cons_prefix_cons.1 h).1
      exact ⟨a ++ [d], rfl⟩
    | cons c' s =>
      obtain ⟨rfl, htail⟩ := List.cons_prefix_cons.1 h
      exact List.cons_prefix_cons.2 ⟨rfl, ih (List.not_mem_of_not_mem_cons hs) htail⟩

theorem prefix_of_not_mem (hw : d ∉ w) (h : w <+: a ++ d :: b) : w <+: a := by
  by_cases hlength : w.length ≤ a.length
  · exact List.prefix_of_prefix_length_le h (List.prefix_append _ _) hlength
  · have hin : a ++ [d] <+: w := by
      refine List.prefix_of_prefix_length_le ⟨b, by simp⟩ h ?_
      rw [List.length_append, List.length_singleton]
      omega
    exact absurd (hin.subset (by simp)) hw

theorem infix_append_iff_of_not_mem {p v : Text} (hp : d ∉ p) :
    d :: w <:+: p ++ v ↔ d :: w <:+: v := by
  induction p with
  | nil => rfl
  | cons c p ih =>
    simp only [List.mem_cons, not_or] at hp
    rw [List.cons_append, List.infix_cons_iff, List.cons_prefix_cons, ih hp.2]
    simp [hp.1]

/-- A text with the character at its start and after `s` stands behind the next place of the
character, or right there. -/
theorem infix_cons_around_iff {s r p v : Text} (hs : d ∉ s) (hp : d ∉ p) :
    d :: (s ++ d :: r) <:+: d :: (p ++ d :: v) ↔
      (s = p ∧ r <+: v) ∨ d :: (s ++ d :: r) <:+: d :: v := by
  rw [List.infix_cons_iff, List.cons_prefix_cons, prefix_around_iff hs hp,
    infix_append_iff_of_not_mem hp]
  simp

/-! ## Up to a character -/

/-- A text up to a character that is not in it ends before a place of the character. -/
theorem suffix_or_infix_of_concat (hw : d ∉ w) (ha : d ∉ a) (h : w ++ [d] <:+: a ++ d :: b) :
    w <:+ a ∨ w ++ [d] <:+: b := by
  rcases infix_around_cases h with hfront | hback | ⟨w₁, w₂, -, hne, heq, -, -⟩
  · rcases List.infix_concat_iff.1 hfront with hend | hinner
    · exact .inl (List.suffix_append_self_iff.1 hend)
    · exact absurd (hinner.subset (by simp)) ha
  · rcases List.infix_cons_iff.1 hback with hbegin | hinner
    · cases w with
      | nil => exact .inl List.nil_suffix
      | cons c w =>
        obtain rfl := (List.cons_prefix_cons.1 hbegin).1
        exact absurd List.mem_cons_self hw
    · exact .inr hinner
  · obtain ⟨v, c, rfl⟩ := (List.eq_nil_or_concat' w₂).resolve_left hne
    rw [← List.cons_append, ← List.append_assoc] at heq
    exact absurd (by simp [(List.append_inj' heq rfl).1]) hw

/-- In pieces joined by a character, a text up to the character ends one of the pieces. -/
theorem exists_suffix_of_infix_join {pieces : List Text} (hw : d ∉ w)
    (hpieces : ∀ piece ∈ pieces, d ∉ piece) (h : w ++ [d] <:+: join [d] pieces) :
    ∃ piece ∈ pieces.dropLast, w <:+ piece := by
  induction pieces with
  | nil => exact absurd (List.infix_nil.1 h) (by simp)
  | cons first rest ih =>
    rw [List.forall_mem_cons] at hpieces
    cases rest with
    | nil =>
      have hfirst : w ++ [d] <:+: first := by simpa [join] using h
      exact absurd (hfirst.subset (by simp)) hpieces.1
    | cons second rest =>
      rw [join, List.intercalate_cons_cons, List.append_assoc, List.singleton_append] at h
      rcases suffix_or_infix_of_concat hw hpieces.1 h with hend | hinner
      · exact ⟨first, by simp, hend⟩
      · obtain ⟨piece, hpiece, hend⟩ := ih hpieces.2 hinner
        exact ⟨piece, List.mem_cons_of_mem _ hpiece, hend⟩

end ViewBuilder.Text
