import ViewBuilder.Proofs.Markup.Indent
import ViewBuilder.Proofs.Reference.Complete

/-!
# Calls of a text inside another

Text around a text does not change its calls when it opens none and is set off by a blank. Trimming
takes only blanks away, and indentation changes what stands at line breaks, so neither changes the
calls of a text in which no call is left open and no name goes over a line break.
-/

namespace ViewBuilder.CallShape

open Text Markup

variable {shape : CallShape} {c : Char} {t gap rest name pre post lead : Text} {names : List Text}

/-! ## Texts in which no call is left open -/

/-- The names of the calls of a text. No call is open at its end. -/
inductive Lists (shape : CallShape) : Text → List Text → Prop where
  | none {t : Text} (h : ¬ shape.opening <:+: t) : Lists shape t []
  | call {gap name rest : Text} {names : List Text} (hgap : ¬ shape.opening <:+: gap)
      (hname : OnlyAtEnd shape.closing name) (hrest : Lists shape rest names) :
      Lists shape (gap ++ (shape.call name ++ rest)) (name :: names)

/-- The texts of the shape hold no blank, and the opening one does not begin within itself. -/
structure Solid (shape : CallShape) : Prop where
  start : ∃ c w, shape.opening = c :: w ∧ c ∉ w
  opening_blank : ∀ c ∈ shape.opening, isBlank c = false
  closing_blank : ∀ c ∈ shape.closing, isBlank c = false
  closing_ne_nil : shape.closing ≠ []

theorem solid_of_mem {kind : AliasKind} (hshape : shape ∈ shapes kind) : shape.Solid := by
  have hstart : ∃ c w, shape.opening = c :: w ∧ c ∉ w := by
    obtain ⟨_, _, hquoted⟩ := exists_quoted hshape
    obtain ⟨c, w, hopening, hc, -⟩ := hquoted.opening
    exact ⟨c, w, hopening, hc⟩
  have hall : ∀ kind, ∀ shape ∈ shapes kind,
      shape.opening.any isBlank = false ∧ shape.closing.any isBlank = false ∧
        shape.closing ≠ [] :=
    forall_shapes_iff.2 ⟨by decide, by decide, by decide, by decide⟩
  obtain ⟨hopening, hclosing, hne⟩ := hall kind shape hshape
  rw [List.any_eq_false] at hopening hclosing
  exact ⟨hstart, fun c hc => Bool.eq_false_iff.2 (hopening c hc),
    fun c hc => Bool.eq_false_iff.2 (hclosing c hc), hne⟩

theorem Solid.onlyAtEnd_iff (hs : shape.Solid) :
    OnlyAtEnd shape.opening gap ↔ ¬ shape.opening <:+: gap := by
  refine ⟨fun h => h.not_infix shape.opening_ne_nil, fun h => ?_⟩
  obtain ⟨c, w, hopening, hc⟩ := hs.start
  rw [hopening] at h ⊢
  exact onlyAtEnd_of_not_infix hc h

theorem Solid.not_mem_opening (hs : shape.Solid) (hc : isBlank c = true) : c ∉ shape.opening := by
  intro hmem
  rw [hs.opening_blank c hmem] at hc
  cases hc

/-! ## Beside divisions -/

theorem Lists.exists_divided (hs : shape.Solid) (h : shape.Lists t names) :
    ∃ calls last, shape.Divided t calls last ∧ ¬ shape.opening <:+: last ∧
      calls.map Called.name = names := by
  induction h with
  | @none t hnone =>
    have hcallless : shape.Callless t := callless_of_cut?_opening (cut?_eq_none_iff.2 hnone)
    exact ⟨[], t, divided_nil_iff.2 ⟨rfl, hcallless⟩, hnone, rfl⟩
  | @call gap name rest names hgap hname _ ih =>
    obtain ⟨calls, last, hdivided, hlast, rfl⟩ := ih
    refine ⟨⟨gap, name⟩ :: calls, last, divided_cons_iff.2
      ⟨name ++ shape.closing ++ rest, rest, ?_, ?_, hdivided⟩, hlast, rfl⟩
    · exact cut?_eq_some_iff_onlyAtEnd.2 ⟨by simp [CallShape.call], hs.onlyAtEnd_iff.2 hgap⟩
    · exact cut?_eq_some_iff_onlyAtEnd.2 ⟨rfl, hname⟩

theorem Lists.names_eq (hs : shape.Solid) (h : shape.Lists t names) : shape.names t = names := by
  obtain ⟨calls, last, hdivided, -, rfl⟩ := h.exists_divided hs
  exact hdivided.names_eq

theorem settled_of_cut?_opening (h : cut? shape.opening t = none) : shape.Settled t :=
  ⟨[], t, divided_nil_iff.2 ⟨rfl, callless_of_cut?_opening h⟩, cut?_eq_none_iff.1 h⟩

theorem Settled.of_cut? {behind : Text} (h : shape.Settled rest)
    (hopened : cut? shape.opening t = some (gap, behind))
    (hclosed : cut? shape.closing behind = some (name, rest)) : shape.Settled t := by
  obtain ⟨calls, last, hdivided, hlast⟩ := h
  exact ⟨⟨gap, name⟩ :: calls, last, divided_cons_iff.2 ⟨behind, rest, hopened, hclosed, hdivided⟩,
    hlast⟩

theorem Settled.lists (h : shape.Settled t) : shape.Lists t (shape.names t) := by
  obtain ⟨calls, last, hdivided, hlast⟩ := h
  rw [hdivided.names_eq]
  induction calls generalizing t with
  | nil =>
    obtain ⟨rfl, -⟩ := divided_nil_iff.1 hdivided
    exact .none hlast
  | cons called calls ih =>
    obtain ⟨behind, rest, hopened, hclosed, hrest⟩ := divided_cons_iff.1 hdivided
    obtain ⟨rfl, hgap⟩ := cut?_eq_some_iff_onlyAtEnd.1 hopened
    obtain ⟨rfl, hname⟩ := cut?_eq_some_iff_onlyAtEnd.1 hclosed
    have hlists := Lists.call (hgap.not_infix shape.opening_ne_nil) hname (ih hrest)
    simpa [CallShape.call] using hlists

/-! ## Text in front and text behind -/

theorem Lists.behind (hs : shape.Solid) (h : shape.Lists t names) (hc : isBlank c = true)
    (hpre : ¬ shape.opening <:+: pre) : shape.Lists (pre ++ c :: t) names := by
  have hopening : ∀ {u : Text}, ¬ shape.opening <:+: u → ¬ shape.opening <:+: pre ++ c :: u := by
    intro u hu
    rw [infix_around_iff (hs.not_mem_opening hc)]
    exact not_or.2 ⟨hpre, hu⟩
  cases h with
  | none hnone => exact .none (hopening hnone)
  | call hgap hname hrest =>
    rw [← List.cons_append, ← List.append_assoc]
    exact .call (hopening hgap) hname hrest

theorem Lists.before (hs : shape.Solid) (h : shape.Lists t names) (hc : isBlank c = true)
    (hpost : ¬ shape.opening <:+: post) : shape.Lists (t ++ c :: post) names := by
  induction h with
  | none hnone =>
    refine .none ?_
    rw [infix_around_iff (hs.not_mem_opening hc)]
    exact not_or.2 ⟨hnone, hpost⟩
  | call hgap hname _ ih =>
    rw [List.append_assoc, List.append_assoc]
    exact .call hgap hname ih

/-! ## Blank text around -/

theorem Lists.behind_blank (hs : shape.Solid) (h : shape.Lists t names)
    (hpre : ∀ x ∈ pre, isBlank x = true) : shape.Lists (pre ++ t) names := by
  induction pre with
  | nil => exact h
  | cons x pre ih =>
    rw [List.forall_mem_cons] at hpre
    have hnil : ¬ shape.opening <:+: [] := fun hinfix =>
      shape.opening_ne_nil (List.infix_nil.1 hinfix)
    exact (ih hpre.2).behind hs hpre.1 hnil

/-- What stands in front of a character that is not in `pre`, when the text begins with `pre`. -/
theorem exists_of_append_eq (hc : c ∉ pre) (h : pre ++ t = gap ++ c :: rest) :
    ∃ front, gap = pre ++ front ∧ t = front ++ c :: rest := by
  rcases List.append_eq_append_iff.1 h with ⟨front, hgap, ht⟩ | ⟨front, hpre, hrest⟩
  · exact ⟨front, hgap, ht⟩
  · cases front with
    | nil => exact ⟨[], by simpa using hpre.symm, by simpa using hrest.symm⟩
    | cons d front =>
      obtain rfl := (List.cons.inj hrest).1
      exact absurd (by simp [hpre]) hc

/-- What stands behind a character that is not in `post`, when the text ends with `post`. -/
theorem exists_of_eq_append (hc : c ∉ post) (h : t ++ post = gap ++ c :: rest) :
    ∃ back, rest = back ++ post ∧ t = gap ++ c :: back := by
  rcases List.append_eq_append_iff.1 h with ⟨back, hgap, hpost⟩ | ⟨back, ht, hrest⟩
  · exact absurd (by simp [hpost]) hc
  · cases back with
    | nil =>
      rw [List.nil_append] at hrest
      exact absurd (hrest ▸ List.mem_cons_self) hc
    | cons d back =>
      obtain ⟨rfl, rfl⟩ := List.cons.inj hrest
      exact ⟨back, rfl, ht⟩

theorem Lists.of_behind_blank (hs : shape.Solid) (h : shape.Lists (pre ++ t) names)
    (hpre : ∀ x ∈ pre, isBlank x = true) : shape.Lists t names := by
  generalize htext : pre ++ t = text at h
  cases h with
  | none hnone =>
    subst htext
    exact .none fun hinfix => hnone (List.infix_append_of_infix_right hinfix)
  | @call gap name rest names hgap hname hrest =>
    obtain ⟨c, w, hopening, -⟩ := hs.start
    have hc : c ∉ pre := fun hmem =>
      hs.not_mem_opening (hpre c hmem) (by rw [hopening]; exact List.mem_cons_self)
    rw [CallShape.call, hopening] at htext
    obtain ⟨front, rfl, rfl⟩ := exists_of_append_eq hc htext
    have hfront : ¬ shape.opening <:+: front := fun hinfix =>
      hgap (List.infix_append_of_infix_right hinfix)
    have hlists := Lists.call hfront hname hrest
    rwa [CallShape.call, hopening] at hlists

theorem Lists.of_before_blank (hs : shape.Solid) (h : shape.Lists (t ++ post) names)
    (hpost : ∀ x ∈ post, isBlank x = true) : shape.Lists t names := by
  generalize htext : t ++ post = text at h
  induction h generalizing t with
  | none hnone =>
    subst htext
    exact .none fun hinfix => hnone (List.infix_append_of_infix_left hinfix)
  | @call gap name rest names hgap hname hrest ih =>
    obtain ⟨front, c, hclosing⟩ := (List.eq_nil_or_concat' shape.closing).resolve_left
      hs.closing_ne_nil
    have hc : c ∉ post := fun hmem => by
      have hblank := hs.closing_blank c (by simp [hclosing])
      rw [hpost c hmem] at hblank
      cases hblank
    have hsplit : gap ++ (shape.call name ++ rest) =
        gap ++ shape.opening ++ name ++ front ++ c :: rest := by
      simp [CallShape.call, hclosing]
    obtain ⟨back, rfl, rfl⟩ := exists_of_eq_append hc (htext.trans hsplit)
    have hlists := Lists.call hgap hname (ih rfl)
    simpa [CallShape.call, hclosing] using hlists

theorem Lists.trim (hs : shape.Solid) (h : shape.Lists t names) :
    shape.Lists (Text.trim t) names := by
  obtain ⟨pre, post, heq, hpre, hpost⟩ := exists_trim t
  rw [heq] at h
  exact (h.of_before_blank hs hpost).of_behind_blank hs hpre

/-! ## Indentation -/

theorem Lists.reindent (hs : shape.Solid) (h : shape.Lists t names)
    (hlead : ∀ x ∈ lead, isBlank x = true) (hnames : ∀ name ∈ names, '\n' ∉ name) :
    shape.Lists (reindent lead t) names := by
  have hopening : ∀ {u : Text}, ¬ shape.opening <:+: u →
      ¬ shape.opening <:+: Markup.reindent lead u := by
    intro u hu hinfix
    obtain ⟨d, w, heq, -⟩ := hs.start
    have hbreak := hs.not_mem_opening (c := '\n') (by decide)
    have hd : d ∉ lead := fun hmem =>
      hs.not_mem_opening (hlead d hmem) (by rw [heq]; exact List.mem_cons_self)
    rw [heq] at hu hinfix hbreak
    exact hu (infix_of_infix_reindent hd hbreak hinfix)
  induction h with
  | none hnone => exact .none (hopening hnone)
  | @call gap name rest names hgap hname _ ih =>
    rw [List.forall_mem_cons] at hnames
    obtain ⟨front, c, hclosing⟩ := (List.eq_nil_or_concat' shape.closing).resolve_left
      hs.closing_ne_nil
    have hbreak : '\n' ∉ shape.call name := by
      have hmem : '\n' ∉ shape.closing := fun hmem =>
        absurd (hs.closing_blank _ hmem) (by decide)
      simp only [CallShape.call, List.mem_append, not_or]
      exact ⟨⟨hs.not_mem_opening (by decide), hnames.1⟩, hmem⟩
    have hreturn : (shape.call name).getLast? ≠ some '\r' := by
      have hblank := hs.closing_blank c (by simp [hclosing])
      have hc : c ≠ '\r' := fun hc => absurd (hc ▸ hblank) (by decide)
      simpa [CallShape.call, hclosing] using hc
    rw [← List.append_assoc, reindent_around (by simp [CallShape.call, hclosing]) hbreak hreturn,
      List.append_assoc]
    exact .call (hopening hgap) hname (ih hnames.2)

end ViewBuilder.CallShape
