import Mathlib
import ViewBuilder.Proofs.Text.Split
import ViewBuilder.Text.Identifier

/-!
# What an identifier is made of

An identifier from a label holds letters and underscores only, whatever the label. Two labels have
the same identifier in capitals when they have the same one in small letters.
-/

namespace ViewBuilder

namespace Text

variable {c : Char} {t u piece separator : Text}

theorem mem_of_mem_words (hpiece : piece ∈ words t) (hc : c ∈ piece) :
    c ∈ t ∧ isBlank c = false :=
  mem_of_mem_splitWhere (List.mem_of_mem_filter hpiece) hc

theorem mem_of_mem_join {pieces : List Text} (h : c ∈ join separator pieces) :
    c ∈ separator ∨ ∃ piece ∈ pieces, c ∈ piece := by
  unfold join at h
  induction pieces with
  | nil => cases h
  | cons first pieces ih =>
    cases pieces with
    | nil => exact .inr ⟨first, List.mem_cons_self, by simpa using h⟩
    | cons second pieces =>
      rw [List.intercalate_cons_cons, List.mem_append, List.mem_append] at h
      rcases h with (h | h) | h
      · exact .inr ⟨first, List.mem_cons_self, h⟩
      · exact .inl h
      · rcases ih h with h | ⟨piece, hpiece, hc⟩
        · exact .inl h
        · exact .inr ⟨piece, List.mem_cons_of_mem _ hpiece, hc⟩

/-- Texts agree in capitals if they agree in small letters. -/
theorem map_toUpper_eq_iff : t.map Char.toUpper = u.map Char.toUpper ↔
    t.map Char.toLower = u.map Char.toLower := by
  constructor
  · intro h
    simpa [Function.comp_def] using congrArg (List.map Char.toLower) h
  · intro h
    simpa [Function.comp_def] using congrArg (List.map Char.toUpper) h

end Text

namespace Identifier

open Text

variable {letters : LetterCase} {label piece : Text} {c : Char}

theorem isAlpha_apply (letters : LetterCase) (c : Char) :
    (letters.apply c).isAlpha = c.isAlpha := by
  cases letters with
  | lower => exact Char.isAlpha_toLower_eq_isAlpha c
  | upper => exact Char.isAlpha_toUpper_eq_isAlpha c

theorem isAlpha_of_mem_wordsOf (hpiece : piece ∈ wordsOf label) (hc : c ∈ piece) :
    c.isAlpha = true := by
  obtain ⟨hmem, hblank⟩ := mem_of_mem_words hpiece hc
  simpa [hblank] using List.of_mem_filter hmem

theorem mem_ofLabel (h : c ∈ ofLabel letters label) : c.isAlpha = true ∨ c = '_' := by
  obtain ⟨x, hx, rfl⟩ := List.mem_map.1 h
  rcases mem_of_mem_join hx with hseparator | ⟨piece, hpiece, hmem⟩
  · obtain rfl : x = '_' := by simpa using hseparator
    cases letters <;> exact .inr (by decide)
  · exact .inl (by rw [isAlpha_apply, isAlpha_of_mem_wordsOf hpiece hmem])

theorem not_mem_ofLabel (hc : ¬ (c.isAlpha = true ∨ c = '_')) (letters : LetterCase)
    (label : Text) : c ∉ ofLabel letters label :=
  fun h => hc (mem_ofLabel h)

theorem ofLabel_upper_append_eq_iff {label other t u : Text} :
    ofLabel .upper label ++ t.map Char.toUpper = ofLabel .upper other ++ u.map Char.toUpper ↔
      ofLabel .lower label ++ t.map Char.toLower = ofLabel .lower other ++ u.map Char.toLower := by
  unfold ofLabel
  change (join _ _).map Char.toUpper ++ _ = (join _ _).map Char.toUpper ++ _ ↔
    (join _ _).map Char.toLower ++ _ = (join _ _).map Char.toLower ++ _
  rw [← List.map_append, ← List.map_append, ← List.map_append, ← List.map_append,
    map_toUpper_eq_iff]

end Identifier

end ViewBuilder
