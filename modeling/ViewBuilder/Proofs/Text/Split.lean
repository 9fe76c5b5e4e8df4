import Mathlib.Data.List.Basic
import ViewBuilder.Text

/-!
# Joining and splitting

A text that is split at some characters falls apart at each of them, and pieces that are joined by
a character come apart at it, if none of them holds it. A text that is split at one character is
joined by it again.
-/

namespace ViewBuilder.Text

/-! ## Splitting -/

theorem splitWhere_eq (p : Char → Bool) (t : Text) :
    ∃ rest, splitWhere p t = t.takeWhile (fun c => !p c) :: rest := by
  induction t with
  | nil => exact ⟨[], rfl⟩
  | cons c t ih =>
    obtain ⟨rest, hrest⟩ := ih
    rw [splitWhere]
    split
    · rename_i hc
      exact ⟨splitWhere p t, by simp [hc]⟩
    · rename_i hc
      exact ⟨rest, by simp [hrest, hc]⟩

theorem splitWhere_ne_nil (p : Char → Bool) (t : Text) : splitWhere p t ≠ [] := by
  obtain ⟨rest, hrest⟩ := splitWhere_eq p t
  rw [hrest]
  exact List.cons_ne_nil _ _

theorem splitWhere_eq_splitOnP (p : Char → Bool) (t : Text) : splitWhere p t = t.splitOnP p := by
  induction t with
  | nil => rfl
  | cons c t ih =>
    obtain ⟨rest, hrest⟩ := splitWhere_eq p t
    rw [List.splitOnP_cons_eq_if_modifyHead, ← ih, splitWhere, hrest]
    rfl

theorem splitWhere_eq_splitOn (c : Char) (t : Text) : splitWhere (· = c) t = t.splitOn c := by
  rw [splitWhere_eq_splitOnP, List.splitOn_eq_splitOnP]
  rfl

theorem mem_of_mem_splitWhere {p : Char → Bool} {c : Char} {t piece : Text}
    (hpiece : piece ∈ splitWhere p t) (hc : c ∈ piece) : c ∈ t ∧ p c = false := by
  induction t generalizing piece with
  | nil =>
    obtain rfl := List.mem_singleton.1 hpiece
    cases hc
  | cons first t ih =>
    rw [splitWhere] at hpiece
    split at hpiece
    · rcases List.mem_cons.1 hpiece with rfl | hpiece
      · cases hc
      · exact (ih hpiece hc).imp_left (List.mem_cons_of_mem _)
    · rename_i hfirst
      split at hpiece
      · obtain rfl := List.mem_singleton.1 hpiece
        obtain rfl := List.mem_singleton.1 hc
        exact ⟨List.mem_cons_self, by simpa using hfirst⟩
      · rename_i front rest hsplit
        rw [hsplit] at ih
        rcases List.mem_cons.1 hpiece with rfl | hpiece
        · rcases List.mem_cons.1 hc with rfl | hc
          · exact ⟨List.mem_cons_self, by simpa using hfirst⟩
          · exact (ih List.mem_cons_self hc).imp_left (List.mem_cons_of_mem _)
        · exact (ih (List.mem_cons_of_mem _ hpiece) hc).imp_left (List.mem_cons_of_mem _)

theorem splitWhere_around {p : Char → Bool} {c : Char} (hc : p c = true) (front behind : Text) :
    splitWhere p (front ++ c :: behind) = splitWhere p front ++ splitWhere p behind := by
  induction front with
  | nil => simp [splitWhere, hc]
  | cons d front ih =>
    obtain ⟨rest, hrest⟩ := splitWhere_eq p front
    rw [List.cons_append, splitWhere, splitWhere, ih, hrest]
    split <;> rfl

theorem splitWhere_eq_singleton {p : Char → Bool} {t : Text} (h : ∀ c ∈ t, p c = false) :
    splitWhere p t = [t] := by
  induction t with
  | nil => rfl
  | cons c t ih =>
    rw [List.forall_mem_cons] at h
    simp [splitWhere, h.1, ih h.2]

theorem splitWhere_eq_self {c : Char} {piece : Text} (h : c ∉ piece) :
    splitWhere (· = c) piece = [piece] := by
  apply splitWhere_eq_singleton
  intro d hd
  have hne : d ≠ c := by
    rintro rfl
    exact h hd
  simp [hne]

theorem splitWhere_append {c : Char} {piece : Text} (h : c ∉ piece) (t : Text) :
    splitWhere (· = c) (piece ++ c :: t) = piece :: splitWhere (· = c) t := by
  rw [splitWhere_around (by simp), splitWhere_eq_self h, List.singleton_append]

/-! ## Joining -/

section

variable {separator : Text} {pieces front behind rest : List Text}

@[simp] theorem join_nil (separator : Text) : join separator [] = [] := rfl

@[simp] theorem join_singleton (separator piece : Text) : join separator [piece] = piece :=
  List.intercalate_singleton

theorem join_cons (separator first : Text) (h : rest ≠ []) :
    join separator (first :: rest) = first ++ separator ++ join separator rest :=
  List.intercalate_cons_of_ne_nil h

theorem mem_join_cons {c : Char} {first : Text} (h : c ∈ first) :
    c ∈ join separator (first :: rest) := by
  by_cases hrest : rest = []
  · rwa [hrest, join_singleton]
  · rw [join_cons _ _ hrest, List.append_assoc]
    exact List.mem_append_left _ h

theorem join_append (separator : Text) (hfront : front ≠ []) (hbehind : behind ≠ []) :
    join separator (front ++ behind) =
      join separator front ++ separator ++ join separator behind := by
  induction front with
  | nil => exact absurd rfl hfront
  | cons first rest ih =>
    by_cases hrest : rest = []
    · rw [hrest, List.singleton_append, join_cons _ _ hbehind, join_singleton]
    · have hboth : rest ++ behind ≠ [] := by simp [hrest]
      rw [List.cons_append, join_cons _ _ hboth, ih hrest, join_cons _ _ hrest]
      simp only [List.append_assoc]

theorem map_join (f : Char → Char) (separator : Text) (pieces : List Text) :
    (join separator pieces).map f = join (separator.map f) (pieces.map (List.map f)) := by
  induction pieces with
  | nil => rfl
  | cons first rest ih =>
    rw [List.map_cons]
    by_cases hrest : rest = []
    · rw [hrest, List.map_nil, join_singleton, join_singleton]
    · have hmap : rest.map (List.map f) ≠ [] := by simp [hrest]
      rw [join_cons _ _ hrest, join_cons _ _ hmap, List.map_append, List.map_append, ih]

theorem join_eq_nil_iff (h : ∀ piece ∈ pieces, piece ≠ []) :
    join separator pieces = [] ↔ pieces = [] := by
  cases pieces with
  | nil => simp
  | cons first rest =>
    rw [List.forall_mem_cons] at h
    by_cases hrest : rest = []
    · simp [hrest, h.1]
    · simp [join_cons _ _ hrest, h.1]

/-- Of pieces that are joined group by group, the groups without pieces do not count. -/
theorem join_flatten {groups : List (List Text)}
    (h : ∀ group ∈ groups, ∀ piece ∈ group, piece ≠ []) :
    join separator groups.flatten =
      join separator ((groups.map (join separator)).filter (· ≠ [])) := by
  induction groups with
  | nil => rfl
  | cons group groups ih =>
    rw [List.forall_mem_cons] at h
    have hjoined := ih h.2
    rw [List.flatten_cons, List.map_cons]
    by_cases hgroup : group = []
    · rw [hgroup, List.nil_append, hjoined, join_nil, List.filter_cons_of_neg (by simp)]
    · have hjoin : join separator group ≠ [] := mt (join_eq_nil_iff h.1).1 hgroup
      rw [List.filter_cons_of_pos (by simpa using hjoin)]
      -- The rest has no pieces exactly when nothing of it is kept.
      have hflat : ∀ piece ∈ groups.flatten, piece ≠ [] := by
        intro piece hpiece
        obtain ⟨other, hother, hmem⟩ := List.mem_flatten.1 hpiece
        exact h.2 other hother piece hmem
      have hkept : ∀ piece ∈ (groups.map (join separator)).filter (· ≠ []), piece ≠ [] := by
        intro piece hpiece
        simpa using (List.mem_filter.1 hpiece).2
      have hnone : groups.flatten = [] ↔ (groups.map (join separator)).filter (· ≠ []) = [] := by
        rw [← join_eq_nil_iff hflat , hjoined, join_eq_nil_iff hkept]
      by_cases hempty : groups.flatten = []
      · rw [hempty, List.append_nil, hnone.1 hempty, join_singleton]
      · rw [join_append separator hgroup hempty, hjoined, join_cons _ _ (mt hnone.2 hempty)]

/-- Pieces that are joined by a character come apart at it. -/
theorem splitWhere_join {c : Char} {pieces : List Text} (hne : pieces ≠ [])
    (h : ∀ piece ∈ pieces, c ∉ piece) : splitWhere (· = c) (join [c] pieces) = pieces := by
  rw [splitWhere_eq_splitOn, join, List.splitOn_intercalate c h hne]

theorem join_splitWhere (c : Char) (t : Text) : join [c] (splitWhere (· = c) t) = t := by
  rw [splitWhere_eq_splitOn, join, List.intercalate_splitOn]

end

/-! ## Empty pieces -/

section

variable {c : Char} {t : Text} {n : Nat}

theorem nil_mem_iff_exists_findIdx? {pieces : List Text} :
    [] ∈ pieces ↔ ∃ n, pieces.findIdx? (fun piece => piece = []) = some n := by
  rw [← Option.isSome_iff_exists, List.findIdx?_isSome, List.any_eq_true]
  simp

/-- The first empty piece stands behind pieces that each end at the character, where the text is
over or goes on with the character. -/
theorem findIdx?_splitWhere_eq_some_iff :
    (splitWhere (· = c) t).findIdx? (fun piece => piece = []) = some n ↔
      ∃ (front : List Text) (behind : Text), t = front.flatMap (· ++ [c]) ++ behind ∧
        front.length = n ∧ (∀ piece ∈ front, piece ≠ [] ∧ c ∉ piece) ∧
        (behind = [] ∨ [c] <+: behind) := by
  constructor
  · intro h
    induction n generalizing t with
    | zero =>
      refine ⟨[], t, rfl, rfl, nofun, ?_⟩
      cases t with
      | nil => exact .inl rfl
      | cons d t =>
        obtain ⟨rest, hrest⟩ := splitWhere_eq (· = c) (d :: t)
        rw [hrest, List.findIdx?_cons] at h
        by_cases hd : d = c
        · exact .inr ⟨t, by rw [hd, List.singleton_append]⟩
        · simp [hd] at h
    | succ n ih =>
      by_cases hc : c ∈ t
      · obtain ⟨piece, rest, rfl, hpiece⟩ := List.eq_append_cons_of_mem hc
        rw [splitWhere_append hpiece, List.findIdx?_cons] at h
        split at h
        · cases h
        · rename_i hne
          obtain ⟨m, hm, hsucc⟩ := Option.map_eq_some_iff.1 h
          obtain rfl := Nat.succ.inj hsucc
          obtain ⟨front, behind, rfl, rfl, hfront, hbehind⟩ := ih hm
          refine ⟨piece :: front, behind, by simp, rfl, ?_, hbehind⟩
          exact List.forall_mem_cons.2 ⟨⟨by simpa using hne, hpiece⟩, hfront⟩
      · rw [splitWhere_eq_self hc, List.findIdx?_cons] at h
        split at h <;> cases h
  · rintro ⟨front, behind, rfl, rfl, hfront, hbehind⟩
    induction front with
    | nil =>
      rcases hbehind with rfl | ⟨rest, rfl⟩
      · rfl
      · simp [splitWhere, List.findIdx?_cons]
    | cons piece front ih =>
      obtain ⟨⟨hne, hpiece⟩, hfront⟩ := List.forall_mem_cons.1 hfront
      have hsplit : (piece :: front).flatMap (· ++ [c]) ++ behind =
          piece ++ c :: (front.flatMap (· ++ [c]) ++ behind) := by simp
      rw [hsplit, splitWhere_append hpiece, List.findIdx?_cons, ih hfront]
      simp [hne]

theorem nil_mem_splitWhere_iff :
    [] ∈ splitWhere (· = c) t ↔ t = [] ∨ [c] <+: t ∨ [c] <:+ t ∨ [c, c] <:+: t := by
  constructor
  · intro h
    obtain ⟨n, hn⟩ := nil_mem_iff_exists_findIdx?.1 h
    obtain ⟨front, behind, rfl, -, -, hbehind⟩ := findIdx?_splitWhere_eq_some_iff.1 hn
    rcases List.eq_nil_or_concat' front with rfl | ⟨front, piece, rfl⟩
    · rcases hbehind with rfl | hbehind
      · exact .inl rfl
      · exact .inr (.inl hbehind)
    · rcases hbehind with rfl | ⟨rest, rfl⟩
      · exact .inr (.inr (.inl ⟨front.flatMap (· ++ [c]) ++ piece, by simp⟩))
      · exact .inr (.inr (.inr ⟨front.flatMap (· ++ [c]) ++ piece, rest, by simp⟩))
  · rintro (rfl | ⟨rest, rfl⟩ | ⟨front, rfl⟩ | ⟨front, rest, rfl⟩)
    · exact List.mem_cons_self
    · simp [splitWhere]
    · rw [splitWhere_around (by simp)]
      simp [splitWhere]
    · rw [List.append_assoc, List.cons_append, splitWhere_around (by simp)]
      simp [splitWhere]

end

end ViewBuilder.Text
