import ViewBuilder.Proofs.Text.Infix

/-!
# Replacing, from left to right

What replacing does at the start of a text: a text to replace that stands there gives way, and a
character at which it does not begin stays. So a part of a text stays if the text to replace begins
nowhere in it.
-/

namespace ViewBuilder.Text

variable {old new front t : Text} {c : Char}

theorem contains_iff : contains old t = true ↔ old <:+: t := by
  rw [contains, Option.isSome_iff_ne_none, ne_eq, cut?_eq_none_iff, not_not]

theorem replaceAll_eq_self (h : ¬ old <:+: t) (new : Text) : replaceAll old new t = t := by
  have hne : old ≠ [] := by
    rintro rfl
    exact h List.nil_infix
  rw [replaceAll, dif_neg hne]
  split
  · rfl
  · rename_i hcut
    rw [cut?_eq_none_iff.2 h] at hcut
    cases hcut

theorem replaceAll_nil (hne : old ≠ []) (new : Text) : replaceAll old new [] = [] :=
  replaceAll_eq_self (fun h => hne (List.infix_nil.1 h)) new

theorem replaceAll_of_cut? {before rest : Text} (hne : old ≠ [])
    (h : cut? old t = some (before, rest)) :
    replaceAll old new t = before ++ new ++ replaceAll old new rest := by
  rw [replaceAll, dif_neg hne]
  split
  · rename_i hcut
    rw [hcut] at h
    cases h
  · rename_i before' rest' hcut
    rw [hcut] at h
    cases h
    rfl

theorem replaceAll_append_self (hne : old ≠ []) (new t : Text) :
    replaceAll old new (old ++ t) = new ++ replaceAll old new t := by
  have hcut : cut? old (old ++ t) = some ([], t) := by
    refine (cut?_eq_some_iff hne).2 ⟨rfl, fun h => ?_⟩
    have hlength := h.length_le
    have hpos := List.length_pos_iff.2 hne
    rw [List.nil_append, List.length_dropLast] at hlength
    omega
  rw [replaceAll_of_cut? hne hcut, List.nil_append]

theorem replaceAll_cons (hne : old ≠ []) (new : Text) (h : ¬ old <+: c :: t) :
    replaceAll old new (c :: t) = c :: replaceAll old new t := by
  have hlead : afterLead? old (c :: t) = none := by
    rw [Option.eq_none_iff_forall_ne_some]
    exact fun rest hrest => h (prefix_of_afterLead?.1 ⟨rest, hrest⟩)
  cases hcut : cut? old t with
  | none =>
    have hinfix : ¬ old <:+: t := cut?_eq_none_iff.1 hcut
    rw [replaceAll_eq_self hinfix, replaceAll_eq_self]
    rw [List.infix_cons_iff]
    exact not_or.2 ⟨h, hinfix⟩
  | some found =>
    have hcons : cut? old (c :: t) = some (c :: found.1, found.2) := by
      rw [cut?, hlead, hcut]
      rfl
    rw [replaceAll_of_cut? hne hcut, replaceAll_of_cut? hne hcons]
    rfl

/-- Where the text to replace does not begin, nothing changes. -/
theorem replaceAll_append (hne : old ≠ []) (new : Text)
    (h : ∀ s, s ≠ [] → s <:+ front → ¬ old <+: s ++ t) :
    replaceAll old new (front ++ t) = front ++ replaceAll old new t := by
  induction front with
  | nil => rfl
  | cons c front ih =>
    have hrest := ih fun s hs hsuffix => h s hs (hsuffix.trans (List.suffix_cons c front))
    have hfirst : ¬ old <+: c :: (front ++ t) := h (c :: front) (by simp) List.suffix_rfl
    rw [List.cons_append, replaceAll_cons hne new hfirst, hrest, List.cons_append]

/-- Three signs stay if the text to replace, which starts with three of them, begins at none. -/
theorem replaceAll_three_signs {w : Text} (hwhole : ¬ w <+: t) (hsecond : ¬ c :: w <+: t)
    (hthird : ¬ c :: c :: w <+: t) (new : Text) :
    replaceAll (c :: c :: c :: w) new (c :: c :: c :: t) =
      c :: c :: c :: replaceAll (c :: c :: c :: w) new t := by
  have hne : c :: c :: c :: w ≠ [] := List.cons_ne_nil _ _
  rw [replaceAll_cons hne, replaceAll_cons hne, replaceAll_cons hne]
  · rw [List.cons_prefix_cons]
    exact fun h => hthird h.2
  · rw [List.cons_prefix_cons, List.cons_prefix_cons]
    exact fun h => hsecond h.2.2
  · rw [List.cons_prefix_cons, List.cons_prefix_cons, List.cons_prefix_cons]
    exact fun h => hwhole h.2.2.2

theorem replaceAll_append_of_not_mem {w : Text} (h : c ∉ front) (new t : Text) :
    replaceAll (c :: w) new (front ++ t) = front ++ replaceAll (c :: w) new t := by
  refine replaceAll_append (by simp) new fun s hs hsuffix hbegin => ?_
  obtain ⟨d, s, rfl⟩ := List.exists_cons_of_ne_nil hs
  obtain rfl := (List.cons_prefix_cons.1 hbegin).1
  exact h (hsuffix.subset List.mem_cons_self)

end ViewBuilder.Text
