import ViewBuilder.Markup.Indent
import ViewBuilder.Proofs.CustomCode.Around

/-!
# What indentation does to a text

Apart from the blank text around a block, indenting it changes what stands at its line breaks and
nothing else. A region that spans lines is changed with the block.
-/

namespace ViewBuilder.Markup

open Text

/-! ## Indentation at line breaks -/

/-- Puts the lead behind each line break, and takes off the carriage return in front of it. -/
def reindent (lead : Text) : Text → Text
  | [] => []
  | c :: t =>
    if c = '\n' then '\n' :: (lead ++ reindent lead t)
    else if c = '\r' ∧ t.head? = some '\n' then reindent lead t
    else c :: reindent lead t

theorem dropReturn_cons {c : Char} {line : Text} (h : line ≠ []) :
    dropReturn (c :: line) = c :: dropReturn line := by
  obtain ⟨c', line, rfl⟩ := List.exists_cons_of_ne_nil h
  unfold dropReturn
  rw [List.getLast?_cons_cons, List.dropLast_cons_cons]
  split <;> rfl

theorem flatMap_splitWhere (lead : Text) {t : Text} (h : t.getLast? ≠ some '\r') :
    (splitWhere (· = '\n') t).flatMap (fun line => '\n' :: (lead ++ dropReturn line)) =
      '\n' :: (lead ++ reindent lead t) := by
  induction t with
  | nil => simp [splitWhere, dropReturn, reindent]
  | cons c t ih =>
    have hlast : t.getLast? ≠ some '\r' := by
      cases t with
      | nil => simp
      | cons c' t => rwa [List.getLast?_cons_cons] at h
    have ih := ih hlast
    obtain ⟨rest, hrest⟩ := splitWhere_eq (· = '\n') t
    rw [splitWhere, reindent]
    split
    · rename_i hc
      simp only [decide_eq_true_eq] at hc
      rw [if_pos hc, List.flatMap_cons, ih]
      simp [dropReturn]
    · rename_i hc
      simp only [decide_eq_true_eq] at hc
      rw [hrest] at ih ⊢
      simp only [List.flatMap_cons, List.cons_append, List.append_assoc, List.cons.injEq,
        true_and, List.append_cancel_left_eq] at ih ⊢
      rw [if_neg hc, ← ih]
      -- A return is the last character of its line exactly when a break comes next.
      cases t with
      | nil =>
        have hreturn : c ≠ '\r' := by simpa using h
        simp [dropReturn, hreturn]
      | cons c' t =>
        by_cases hbreak : c' = '\n'
        · by_cases hreturn : c = '\r'
          · simp [dropReturn, hbreak, hreturn]
          · simp [dropReturn, hbreak, hreturn]
        · rw [List.takeWhile_cons_of_pos (by simpa using hbreak), dropReturn_cons (by simp)]
          simp [hbreak]

theorem getLast?_trim (t : Text) : (trim t).getLast? ≠ some '\r' := by
  intro h
  rw [trim, trimEnd, List.getLast?_reverse] at h
  have hblank := List.head?_dropWhile_not isBlank (trimStart t).reverse
  rw [h] at hblank
  exact absurd hblank (by decide)

theorem indentLines_eq (lead content : Text) :
    indentLines lead content = '\n' :: (lead ++ reindent lead (trim content)) := by
  rw [indentLines, lines, List.flatMap_map, ← flatMap_splitWhere lead (getLast?_trim content)]
  rfl

/-! ## Pieces of a text -/

variable {lead a b t w : Text} {d : Char}

theorem reindent_append (h : a.getLast? = some '\r' → b.head? ≠ some '\n') :
    reindent lead (a ++ b) = reindent lead a ++ reindent lead b := by
  induction a with
  | nil => rfl
  | cons c a ih =>
    have ih : reindent lead (a ++ b) = reindent lead a ++ reindent lead b := by
      cases a with
      | nil => rfl
      | cons c' a => exact ih (by rwa [List.getLast?_cons_cons] at h)
    have hhead : c = '\r' → ((a ++ b).head? = some '\n' ↔ a.head? = some '\n') := by
      rintro rfl
      cases a with
      | nil => simpa using h rfl
      | cons c' a => simp
    rw [List.cons_append, reindent, reindent, ih]
    split
    · simp
    · by_cases hc : c = '\r'
      · simp only [hhead hc]
        split
        · rfl
        · rfl
      · simp [hc]

theorem reindent_eq_self (h : '\n' ∉ t) : reindent lead t = t := by
  induction t with
  | nil => rfl
  | cons c t ih =>
    simp only [List.mem_cons, not_or] at h
    have hhead : t.head? ≠ some '\n' := fun hhead => h.2 (List.mem_of_head? hhead)
    rw [reindent, if_neg (Ne.symm h.1), if_neg (by simp [hhead]), ih h.2]

theorem reindent_around (hw : w ≠ []) (hbreak : '\n' ∉ w) (hreturn : w.getLast? ≠ some '\r') :
    reindent lead (a ++ w ++ b) = reindent lead a ++ w ++ reindent lead b := by
  have hlast : w.getLast? = some '\r' → b.head? ≠ some '\n' := fun hlast => absurd hlast hreturn
  have hhead : (w ++ b).head? ≠ some '\n' := by
    rw [List.head?_append_of_ne_nil w hw]
    exact fun hhead => hbreak (List.mem_of_head? hhead)
  rw [List.append_assoc, reindent_append fun _ => hhead, reindent_append hlast,
    reindent_eq_self hbreak, List.append_assoc]

theorem count_break_reindent (h : '\n' ∉ lead) :
    (reindent lead t).count '\n' = t.count '\n' := by
  induction t with
  | nil => rfl
  | cons c t ih =>
    rw [reindent]
    split
    · rename_i hc
      simp [hc, ih, List.count_eq_zero.2 h]
    · split
      · rename_i hreturn
        simp [hreturn.1, ih]
      · simp [List.count_cons, ih]

theorem count_tab_reindent (levels : Nat) (t : Text) :
    (reindent (indent levels) t).count '\t' = t.count '\t' + levels * t.count '\n' := by
  induction t with
  | nil => rfl
  | cons c t ih =>
    rw [reindent]
    split
    · rename_i hc
      have hlead : (indent levels).count '\t' = levels := by simp [indent]
      simp [hc, ih, hlead, Nat.mul_add]
      omega
    · rename_i hc
      split
      · rename_i hreturn
        simp [hreturn.1, ih]
      · simp [List.count_cons, ih, hc]
        omega

theorem not_mem_indent (levels : Nat) (h : d ≠ '\t') : d ∉ indent levels :=
  fun hmem => h (List.eq_of_mem_replicate hmem)

theorem indent_append (m n : Nat) : indent m ++ indent n = indent (m + n) :=
  List.replicate_append_replicate

theorem break_mem_reindent_iff {levels : Nat} :
    '\n' ∈ reindent (indent levels) t ↔ '\n' ∈ t := by
  rw [← List.count_pos_iff, ← List.count_pos_iff,
    count_break_reindent (not_mem_indent levels (by decide))]

/-- Only a text on one line stays as it is. -/
theorem reindent_eq_self_iff {levels : Nat} :
    reindent (indent (levels + 1)) t = t ↔ '\n' ∉ t := by
  constructor
  · intro heq
    have hcount := count_tab_reindent (levels + 1) t
    rw [heq] at hcount
    have hzero : (levels + 1) * t.count '\n' = 0 := by omega
    exact List.count_eq_zero.1 ((Nat.mul_eq_zero.1 hzero).resolve_left (Nat.succ_ne_zero levels))
  · exact reindent_eq_self

/-! ## What is on one line -/

theorem prefix_of_prefix_reindent (hw : '\n' ∉ w) (h : w <+: reindent lead t) : w <+: t := by
  induction t generalizing w with
  | nil => exact h
  | cons c t ih =>
    cases w with
    | nil => exact List.nil_prefix
    | cons x w =>
      simp only [List.mem_cons, not_or] at hw
      rw [reindent] at h
      split at h
      · exact absurd (List.cons_prefix_cons.1 h).1.symm hw.1
      · split at h
        · rename_i hreturn
          obtain ⟨t, rfl⟩ := List.head?_eq_some_iff.1 hreturn.2
          have hx := ih (by simp [hw]) h
          exact absurd (List.cons_prefix_cons.1 hx).1.symm hw.1
        · obtain ⟨rfl, htail⟩ := List.cons_prefix_cons.1 h
          exact List.cons_prefix_cons.2 ⟨rfl, ih hw.2 htail⟩

/-- A text on one line that does not begin within the lead was there before. -/
theorem infix_of_infix_reindent (hd : d ∉ lead) (hw : '\n' ∉ d :: w)
    (h : d :: w <:+: reindent lead t) : d :: w <:+: t := by
  induction t with
  | nil => exact h
  | cons c t ih =>
    rw [reindent] at h
    split at h
    · have hd' : d ∉ '\n' :: lead := by
        simp only [List.mem_cons, not_or] at hw ⊢
        exact ⟨Ne.symm hw.1, hd⟩
      exact List.infix_cons (ih ((infix_append_iff_of_not_mem hd').1 h))
    · split at h
      · exact List.infix_cons (ih h)
      · rcases List.infix_cons_iff.1 h with hbegin | hplace
        · obtain ⟨rfl, htail⟩ := List.cons_prefix_cons.1 hbegin
          simp only [List.mem_cons, not_or] at hw
          exact (List.cons_prefix_cons.2 ⟨rfl, prefix_of_prefix_reindent hw.2 htail⟩).isInfix
        · exact List.infix_cons (ih hplace)

end ViewBuilder.Markup

/-! ## Regions -/

namespace ViewBuilder.Region

open Markup Text MarkShape

variable {lead t : Text} {cut : List Piece}

/-- The piece with its text changed, but for its markers. -/
def Piece.map (f : Text → Text) : Piece → Piece
  | .plain t => .plain (f t)
  | .unclosed id => .unclosed id
  | .region id body => .region id (f body)

theorem break_not_mem_write {id : Text} (h : IsId id) :
    '\n' ∉ opening.write id ∧ '\n' ∉ closing.write id :=
  foreign_of_isBlank (by decide) id h

theorem Keyless.reindent (hlead : 'R' ∉ lead) (h : Keyless t) : Keyless (reindent lead t) :=
  fun hkey => h (infix_of_infix_reindent hlead (by decide) hkey)

theorem not_opens_reindent (hlead : '/' ∉ lead) (h : ¬ Opens t) : ¬ Opens (reindent lead t) := by
  rintro ⟨id, hid, hplace⟩
  have hbreak := (break_not_mem_write hid).1
  rw [write_opening] at hplace hbreak
  have hplace := infix_of_infix_reindent hlead hbreak hplace
  rw [← write_opening] at hplace
  exact h ⟨id, hid, hplace⟩

theorem closing_of_reindent {id : Text} (hid : IsId id) (hlead : '/' ∉ lead)
    (h : closing.write id <:+: reindent lead t) : closing.write id <:+: t := by
  have hbreak := (break_not_mem_write hid).2
  rw [write_closing] at h hbreak ⊢
  exact infix_of_infix_reindent hlead hbreak h

theorem reindent_opening {id : Text} (hid : IsId id) (before rest : Text) :
    reindent lead (before ++ opening.write id ++ rest) =
      reindent lead before ++ opening.write id ++ reindent lead rest :=
  reindent_around (opening.write_ne_nil id) (break_not_mem_write hid).1
    fun hlast => (foreign_of_isBlank (by decide) id hid).1 (List.mem_of_getLast? hlast)

theorem reindent_closing {id : Text} (hid : IsId id) (before rest : Text) :
    reindent lead (before ++ closing.write id ++ rest) =
      reindent lead before ++ closing.write id ++ reindent lead rest :=
  reindent_around (closing.write_ne_nil id) (break_not_mem_write hid).2
    fun hlast => (foreign_of_isBlank (by decide) id hid).2 (List.mem_of_getLast? hlast)

theorem reindent_closing_start {id : Text} (hid : IsId id) (body : Text) :
    reindent lead (body ++ (closing.write id).dropLast) =
      reindent lead body ++ (closing.write id).dropLast := by
  have hbreak : '\n' ∉ (closing.write id).dropLast := fun h =>
    (break_not_mem_write hid).2 (List.dropLast_subset _ h)
  rw [reindent_append fun _ hhead => hbreak (List.mem_of_head? hhead), reindent_eq_self hbreak]

theorem Cut.reindent (h : Cut t cut) (hlead : '/' ∉ lead) :
    Cut (reindent lead t) (cut.map (Piece.map (reindent lead))) := by
  have hslash : ∀ before : Text, ¬ Opens (before ++ ['/']) →
      ¬ Opens (Markup.reindent lead before ++ ['/']) := by
    intro before hfirst
    have hnew := not_opens_reindent hlead hfirst
    have hself : Markup.reindent lead ['/'] = ['/'] := reindent_eq_self (by decide)
    rwa [reindent_append fun _ => by simp, hself] at hnew
  induction h with
  | plain hnone => exact .plain (not_opens_reindent hlead hnone)
  | @region before id body rest cut hid hfirst hbody _ ih =>
    have hnew : ¬ closing.write id <:+: Markup.reindent lead body ++ (closing.write id).dropLast := by
      intro hclosing
      rw [← reindent_closing_start hid] at hclosing
      exact hbody (closing_of_reindent hid hlead hclosing)
    rw [reindent_opening hid, reindent_closing hid]
    exact .region hid (hslash before hfirst) hnew ih
  | @unclosed before id behind cut hid hfirst hbehind _ ih =>
    rw [reindent_opening hid]
    exact .unclosed hid (hslash before hfirst) (fun h => hbehind (closing_of_reindent hid hlead h)) ih

theorem all_reindent (hlead : '/' ∉ lead) :
    all (reindent lead t) = (all t).map fun region => (region.1, reindent lead region.2) := by
  rw [all, pieces_eq_of_cut ((cut_pieces t).reindent hlead), all, List.filterMap_map,
    List.map_filterMap]
  congr 1
  funext piece
  cases piece <;> rfl

end ViewBuilder.Region
