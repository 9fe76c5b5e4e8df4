import ViewBuilder.Proofs.Text.Split
import ViewBuilder.Text.Blank

/-!
# Words of a text

A blank ends a word, so two texts with a blank between them have the words of the one and then those
of the other. Blanks at the ends of a text make no words, and trimming takes them away.
-/

namespace ViewBuilder.Text

/-! ## Characters that are not blank -/

theorem range_of_isAlphanum {c : Char} (h : c.isAlphanum = true) :
    48 ≤ c.toNat ∧ c.toNat ≤ 122 := by
  change ((decide (65 ≤ c.val ∧ c.val ≤ 90) || (decide (97 ≤ c.val) && decide (c.val ≤ 122))) ||
    (decide (48 ≤ c.val) && decide (c.val ≤ 57))) = true at h
  simp only [Bool.or_eq_true, Bool.and_eq_true, decide_eq_true_eq, UInt32.le_iff_toNat_le] at h
  change ((65 ≤ c.toNat ∧ c.toNat ≤ 90) ∨ (97 ≤ c.toNat ∧ c.toNat ≤ 122)) ∨
    (48 ≤ c.toNat ∧ c.toNat ≤ 57) at h
  omega

theorem isBlank_of_isAlphanum {c : Char} (h : c.isAlphanum = true) : isBlank c = false := by
  have := range_of_isAlphanum h
  simp [isBlank, blankRanges]
  omega

/-! ## Words -/

variable {c : Char} {t word : Text}

theorem words_around (hc : isBlank c = true) (front behind : Text) :
    words (front ++ c :: behind) = words front ++ words behind := by
  rw [words, splitWhere_around hc, List.filter_append, words, words]

theorem words_eq_singleton (hne : word ≠ []) (h : ∀ c ∈ word, isBlank c = false) :
    words word = [word] := by
  rw [words, splitWhere_eq_singleton h]
  exact List.filter_cons_of_pos (by simpa using hne)

theorem ne_nil_of_mem_words (h : word ∈ words t) : word ≠ [] := by
  simpa using (List.mem_filter.1 h).2

theorem words_eq_nil_iff : words t = [] ↔ ∀ c ∈ t, isBlank c = true := by
  induction t with
  | nil => simp [words, splitWhere]
  | cons c t ih =>
    rw [List.forall_mem_cons]
    by_cases hc : isBlank c = true
    · rw [← List.nil_append (c :: t), words_around hc, List.append_eq_nil_iff, ih]
      simp [words, splitWhere, hc]
    · obtain ⟨rest, hrest⟩ := splitWhere_eq isBlank t
      simp [words, splitWhere, hrest, hc]

/-! ## Trimming -/

theorem exists_trim (t : Text) : ∃ pre post, t = pre ++ trim t ++ post ∧
    (∀ x ∈ pre, isBlank x = true) ∧ ∀ x ∈ post, isBlank x = true := by
  refine ⟨t.takeWhile isBlank, ((trimStart t).reverse.takeWhile isBlank).reverse, ?_, ?_, ?_⟩
  · rw [trim, trimEnd, List.append_assoc, ← List.reverse_append, List.takeWhile_append_dropWhile,
      List.reverse_reverse, trimStart, List.takeWhile_append_dropWhile]
  · exact fun x hx => List.all_eq_true.1 List.all_takeWhile x hx
  · intro x hx
    rw [List.mem_reverse] at hx
    exact List.all_eq_true.1 List.all_takeWhile x hx

end ViewBuilder.Text
