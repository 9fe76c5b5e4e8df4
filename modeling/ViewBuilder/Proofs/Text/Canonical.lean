import ViewBuilder.Proofs.Text.Identifier
import ViewBuilder.Proofs.Text.Numeral
import ViewBuilder.Proofs.Text.Words

/-!
# Identifiers are canonical

Blanks and underscores separate the words of a label. A separator is in no word and in no run of
digits, so labels with separators between them have the words of the one and then those of the
other. From this follow the laws of identifiers: an identifier is made of words of one case, it is
its own identifier, and an identifier of several labels is joined from theirs.
-/

namespace ViewBuilder

open Text

/-! ## Numbers have letters -/

theorem Numeral.exists_isAlpha_of_meaning? {word : Text} {meaning : Meaning}
    (h : meaning? word = some meaning) : ∃ c ∈ word, c.isAlpha = true := by
  have hall : ∀ entry ∈ meanings, entry.1.toList.any Char.isAlpha = true := by
    decide +kernel
  obtain ⟨entry, hfind, -⟩ := Option.map_eq_some_iff.1 h
  obtain rfl : entry.1.toList = word := by simpa using List.find?_some hfind
  exact List.any_eq_true.1 (hall entry (List.mem_of_find?_eq_some hfind))

theorem Numeral.exists_isAlpha_text {n : Nat} (h : n < 1000 ^ 7) :
    ∃ c ∈ text n, c.isAlpha = true := by
  obtain ⟨first, rest, hwords⟩ := List.exists_cons_of_ne_nil (words_ne_nil h)
  obtain ⟨reading, hread, -⟩ := Option.map_eq_some_iff.1 (read?_words h)
  obtain ⟨meaning, hmeaning⟩ :=
    Reading.exists_meaning?_of_read? hread (hwords ▸ List.mem_cons_self)
  obtain ⟨c, hc, halpha⟩ := exists_isAlpha_of_meaning? hmeaning
  exact ⟨c, by rw [text, hwords]; exact mem_join_cons hc, halpha⟩

namespace Identifier

variable {c : Char} {label word front behind separator : Text} {letters : LetterCase}

theorem exists_isAlpha_runWords {digits : Text} (hne : digits ≠ []) :
    ∃ c ∈ runWords digits, c.isAlpha = true := by
  have hlimit : wordLimit < 1000 ^ 7 := by decide
  unfold runWords
  dsimp only
  split
  · rename_i hfits
    exact Numeral.exists_isAlpha_text (hfits.trans hlimit)
  · -- A run that is too long is spelt digit by digit, and its first digit will do.
    obtain ⟨first, rest, rfl⟩ := List.exists_cons_of_ne_nil hne
    have hdigit : digitsValue [first] < 1000 ^ 7 := by
      have hvalue : digitsValue [first] ≤ first.toNat := by simp [digitsValue]
      have hsize : first.toNat < 2 ^ 32 := first.val.toNat_lt
      omega
    obtain ⟨c, hc, halpha⟩ := Numeral.exists_isAlpha_text hdigit
    exact ⟨c, mem_join_cons hc, halpha⟩

theorem exists_isAlpha_spellRun_iff {run : Text} :
    (∃ c ∈ spellRun run, c.isAlpha = true) ↔ run ≠ [] := by
  cases run with
  | nil => simp [spellRun]
  | cons digit run =>
    obtain ⟨c, hc, halpha⟩ := exists_isAlpha_runWords (List.cons_ne_nil digit run)
    simp only [ne_eq, reduceCtorEq, not_false_eq_true, iff_true]
    exact ⟨c, by simp [spellRun, hc], halpha⟩

/-- Digits become letters, and letters stay. -/
theorem exists_isAlpha_spellDigits_iff (run t : Text) :
    (∃ c ∈ spellDigits run t, c.isAlpha = true) ↔ run ≠ [] ∨ ∃ c ∈ t, c.isAlphanum = true := by
  induction t generalizing run with
  | nil =>
    rw [spellDigits, exists_isAlpha_spellRun_iff]
    simp
  | cons c t ih =>
    rw [spellDigits]
    split
    · rename_i hdigit
      rw [ih]
      simp [Char.isAlphanum, hdigit]
    · rename_i hdigit
      have hc : c.isAlphanum = c.isAlpha := by simp [Char.isAlphanum, hdigit]
      have hrest := ih []
      rw [ne_eq, eq_self, not_true_eq_false, false_or] at hrest
      simp only [List.mem_append, List.mem_cons, or_and_right, exists_or, exists_eq_left,
        exists_isAlpha_spellRun_iff, hrest, hc]

/-! ## Words and separators -/

/-- What stands between the words of a label. -/
def IsSeparator (c : Char) : Prop := isBlank c = true ∨ c = '_'

theorem isDigit_of_isBlank (h : isBlank c = true) : c.isDigit = false := by
  by_contra hdigit
  rw [isBlank_of_isAlphanum (by simp [Char.isAlphanum, hdigit])] at h
  cases h

theorem isDigit_of_isAlpha (h : c.isAlpha = true) : c.isDigit = false := by
  simp only [Char.isAlpha, Char.isUpper, Char.isLower, Bool.or_eq_true, Bool.and_eq_true,
    decide_eq_true_eq, UInt32.le_iff_toNat_le, ge_iff_le] at h
  simp only [Char.isDigit, Bool.and_eq_false_iff, decide_eq_false_iff_not, UInt32.le_iff_toNat_le,
    ge_iff_le]
  change (65 ≤ c.toNat ∧ c.toNat ≤ 90) ∨ (97 ≤ c.toNat ∧ c.toNat ≤ 122) at h
  change ¬ 48 ≤ c.toNat ∨ ¬ c.toNat ≤ 57
  omega

theorem spellDigits_around (hc : c.isDigit = false) (run front behind : Text) :
    spellDigits run (front ++ c :: behind) = spellDigits run front ++ c :: spellDigits [] behind := by
  induction front generalizing run with
  | nil => simp [spellDigits, hc]
  | cons d front ih =>
    rw [List.cons_append, spellDigits, spellDigits]
    split
    · exact ih _
    · rw [ih, List.append_assoc, List.cons_append]

/-- The words of a label, trimmed or not. -/
def labelWords (label : Text) : List Text :=
  words ((spellDigits [] (label.map fun c => if c = '_' then ' ' else c)).filter fun c =>
    c.isAlpha || isBlank c)

theorem labelWords_around (hc : IsSeparator c) (front behind : Text) :
    labelWords (front ++ c :: behind) = labelWords front ++ labelWords behind := by
  -- A separator is no digit, so no run of digits goes on behind it.
  have hblank : isBlank (if c = '_' then ' ' else c) = true := by
    split
    · decide
    · rename_i hne
      exact hc.resolve_right hne
  unfold labelWords
  rw [List.map_append, List.map_cons, spellDigits_around (isDigit_of_isBlank hblank),
    List.filter_append, List.filter_cons_of_pos (by simp [hblank]), words_around hblank]

theorem labelWords_append_front (h : ∀ c ∈ front, IsSeparator c) (behind : Text) :
    labelWords (front ++ behind) = labelWords behind := by
  induction front with
  | nil => rfl
  | cons c front ih =>
    rw [List.forall_mem_cons] at h
    have hskip := labelWords_around h.1 [] (front ++ behind)
    exact hskip.trans (ih h.2)

theorem labelWords_append_behind (front : Text) (h : ∀ c ∈ behind, IsSeparator c) :
    labelWords (front ++ behind) = labelWords front := by
  cases behind with
  | nil => rw [List.append_nil]
  | cons c behind =>
    rw [List.forall_mem_cons] at h
    have hnone := labelWords_append_front h.2 []
    rw [List.append_nil] at hnone
    rw [labelWords_around h.1, hnone]
    exact List.append_nil _

theorem wordsOf_eq (label : Text) : wordsOf label = labelWords label := by
  obtain ⟨pre, post, heq, hpre, hpost⟩ := exists_trim label
  conv => rhs; rw [heq]
  rw [labelWords_append_behind _ fun c hc => .inl (hpost c hc),
    labelWords_append_front fun c hc => .inl (hpre c hc)]
  rfl

theorem wordsOf_trim (label : Text) : wordsOf (trim label) = wordsOf label := by
  rw [wordsOf_eq (trim label)]
  rfl

theorem wordsOf_around (hc : IsSeparator c) (front behind : Text) :
    wordsOf (front ++ c :: behind) = wordsOf front ++ wordsOf behind := by
  rw [wordsOf_eq, wordsOf_eq, wordsOf_eq, labelWords_around hc]

/-- Labels with separators between them. -/
theorem wordsOf_separated (hne : separator ≠ []) (h : ∀ c ∈ separator, IsSeparator c)
    (front behind : Text) :
    wordsOf (front ++ separator ++ behind) = wordsOf front ++ wordsOf behind := by
  obtain ⟨c, more, rfl⟩ := List.exists_cons_of_ne_nil hne
  rw [List.forall_mem_cons] at h
  rw [List.append_assoc, List.cons_append, wordsOf_around h.1, wordsOf_eq (more ++ behind),
    labelWords_append_front h.2, wordsOf_eq behind]

/-! ## Words are their own words -/

theorem spellDigits_eq_self (h : ∀ c ∈ word, c.isDigit = false) : spellDigits [] word = word := by
  induction word with
  | nil => rfl
  | cons c word ih =>
    rw [List.forall_mem_cons] at h
    simp [spellDigits, h.1, ih h.2, spellRun]

theorem wordsOf_eq_singleton (hne : word ≠ []) (h : ∀ c ∈ word, c.isAlpha = true) :
    wordsOf word = [word] := by
  have hspaced : (word.map fun c => if c = '_' then ' ' else c) = word := by
    refine (List.map_congr_left fun c hc => ?_).trans word.map_id
    have hne : c ≠ '_' := by
      rintro rfl
      exact absurd (h _ hc) (by decide)
    exact if_neg hne
  have hdigit : ∀ c ∈ word, c.isDigit = false := fun c hc => isDigit_of_isAlpha (h c hc)
  have hblank : ∀ c ∈ word, isBlank c = false := fun c hc =>
    isBlank_of_isAlphanum (by simp [Char.isAlphanum, h c hc])
  have hkept : (word.filter fun c => c.isAlpha || isBlank c) = word :=
    List.filter_eq_self.2 fun c hc => by simp [h c hc]
  rw [wordsOf_eq, labelWords, hspaced, spellDigits_eq_self hdigit, hkept,
    words_eq_singleton hne hblank]

theorem wordsOf_join {pieces : List Text}
    (h : ∀ piece ∈ pieces, piece ≠ [] ∧ ∀ c ∈ piece, c.isAlpha = true) :
    wordsOf (join "_" pieces) = pieces := by
  induction pieces with
  | nil => decide
  | cons first rest ih =>
    rw [List.forall_mem_cons] at h
    have hfirst := wordsOf_eq_singleton h.1.1 h.1.2
    by_cases hrest : rest = []
    · rw [hrest, join_singleton, hfirst]
    · rw [join_cons _ _ hrest, wordsOf_separated (by decide) (by simp [IsSeparator]), hfirst, ih h.2,
        List.singleton_append]

/-! ## Identifiers -/

theorem ofLabel_eq_join (letters : LetterCase) (label : Text) :
    ofLabel letters label = join "_" ((wordsOf label).map (List.map letters.apply)) := by
  rw [ofLabel, map_join]
  congr 1
  cases letters <;> rfl

theorem ne_nil_of_mem_wordsOf (h : word ∈ wordsOf label) : word ≠ [] := ne_nil_of_mem_words h

/-- An underscore counts as a blank. -/
theorem isAlphanum_blanked (c : Char) :
    (if c = '_' then ' ' else c).isAlphanum = c.isAlphanum := by
  split
  · rename_i hc
    rw [hc]
    decide
  · rfl

theorem ofLabel_eq_nil_iff : ofLabel letters label = [] ↔ ¬ ∃ c ∈ label, c.isAlphanum = true := by
  have hspelt : (∃ c ∈ label, c.isAlphanum = true) ↔
      ∃ c ∈ spellDigits [] (label.map fun c => if c = '_' then ' ' else c), c.isAlpha = true := by
    simp [exists_isAlpha_spellDigits_iff, isAlphanum_blanked]
  rw [ofLabel, List.map_eq_nil_iff, join_eq_nil_iff fun _ => ne_nil_of_mem_wordsOf, wordsOf_eq,
    labelWords, words_eq_nil_iff, hspelt, not_exists]
  refine forall_congr' fun c => ?_
  rw [List.mem_filter]
  by_cases halpha : c.isAlpha = true
  · have hblank := isBlank_of_isAlphanum (show c.isAlphanum = true by simp [Char.isAlphanum, halpha])
    simp [halpha, hblank]
  · simp [halpha]

/-- A character of a case. -/
def LetterCase.Has : LetterCase → Char → Prop
  | .lower, c => c.isLower = true
  | .upper, c => c.isUpper = true

theorem LetterCase.has_apply (letters : LetterCase) (h : c.isAlpha = true) :
    letters.Has (letters.apply c) := by
  cases letters with
  | lower => exact (Char.isLower_toLower_eq_isAlpha c).trans h
  | upper => exact (Char.isUpper_toUpper_eq_isAlpha c).trans h

theorem LetterCase.apply_apply (letters other : LetterCase) (c : Char) :
    letters.apply (other.apply c) = letters.apply c := by
  cases letters <;> cases other <;> simp [LetterCase.apply]

theorem map_apply_ofLabel (letters other : LetterCase) (label : Text) :
    (ofLabel other label).map letters.apply = ofLabel letters label := by
  rw [ofLabel, List.map_map, ofLabel]
  exact List.map_congr_left fun c _ => letters.apply_apply other c

theorem ofLabel_ofLabel (letters other : LetterCase) (label : Text) :
    ofLabel letters (ofLabel other label) = ofLabel letters label := by
  have hwords : wordsOf (ofLabel other label) = (wordsOf label).map (List.map other.apply) := by
    rw [ofLabel_eq_join other]
    apply wordsOf_join
    rw [List.forall_mem_map]
    intro word hword
    refine ⟨by simpa using ne_nil_of_mem_wordsOf hword, ?_⟩
    rw [List.forall_mem_map]
    intro c hc
    rw [isAlpha_apply, isAlpha_of_mem_wordsOf hword hc]
  rw [ofLabel, hwords, ← ofLabel_eq_join, map_apply_ofLabel]

theorem exists_words_ofLabel (letters : LetterCase) (label : Text) :
    ∃ words, ofLabel letters label = join "_" words ∧
      ∀ word ∈ words, word ≠ [] ∧ ∀ c ∈ word, letters.Has c := by
  refine ⟨_, ofLabel_eq_join letters label, ?_⟩
  rw [List.forall_mem_map]
  intro word hword
  refine ⟨by simpa using ne_nil_of_mem_wordsOf hword, ?_⟩
  rw [List.forall_mem_map]
  exact fun c hc => letters.has_apply (isAlpha_of_mem_wordsOf hword hc)

/-- Labels that are put together have their identifiers joined, without the empty ones. -/
theorem ofLabel_eq_of_wordsOf {labels : List Text} (h : wordsOf label = labels.flatMap wordsOf) :
    ofLabel letters label = join "_" ((labels.map (ofLabel letters)).filter (· ≠ [])) := by
  let casedWords := fun label => (wordsOf label).map (List.map letters.apply)
  have hcased : (wordsOf label).map (List.map letters.apply) = (labels.map casedWords).flatten := by
    rw [h, List.map_flatMap, List.flatMap_def]
  have hne : ∀ group ∈ labels.map casedWords, ∀ piece ∈ group, piece ≠ [] := by
    rw [List.forall_mem_map]
    intro label _
    rw [List.forall_mem_map]
    intro word hword
    simpa using ne_nil_of_mem_wordsOf hword
  have hjoin : (labels.map casedWords).map (join "_") = labels.map (ofLabel letters) := by
    rw [List.map_map]
    exact List.map_congr_left fun label _ => (ofLabel_eq_join letters label).symm
  rw [ofLabel_eq_join, hcased, join_flatten hne, hjoin]

theorem ofLabel_separated (letters : LetterCase) (hne : separator ≠ [])
    (h : ∀ c ∈ separator, IsSeparator c) (front behind : Text) :
    ofLabel letters (front ++ separator ++ behind) =
      join "_" ([ofLabel letters front, ofLabel letters behind].filter (· ≠ [])) := by
  have hwords : wordsOf (front ++ separator ++ behind) = [front, behind].flatMap wordsOf := by
    rw [wordsOf_separated hne h]
    simp
  exact ofLabel_eq_of_wordsOf hwords

/-- The laws of identifiers. The identifier of a label is made of words of letters of its case,
joined by underscores, and there is no word exactly when the label has no letter and no digit. An
identifier made from an identifier differs from one made from the label in no case. Labels with
separators between them have joined identifiers, or the one that is not empty. -/
theorem ofLabel_canonical (letters other : LetterCase) (label : Text) :
    (∃ words, ofLabel letters label = join "_" words ∧
      ∀ word ∈ words, word ≠ [] ∧ ∀ c ∈ word, letters.Has c) ∧
    (ofLabel letters label = [] ↔ ¬ ∃ c ∈ label, c.isAlphanum = true) ∧
    ofLabel letters (ofLabel other label) = ofLabel letters label ∧
    ∀ separator behind, separator ≠ [] → (∀ c ∈ separator, isBlank c = true ∨ c = '_') →
      ofLabel letters (label ++ separator ++ behind) =
        join "_" ([ofLabel letters label, ofLabel letters behind].filter (· ≠ [])) := by
  exact ⟨exists_words_ofLabel letters label, ofLabel_eq_nil_iff,
    ofLabel_ofLabel letters other label, fun separator behind hne h =>
      ofLabel_separated letters hne h label behind⟩

/-- A number at the separator becomes words of its own, and letters with marks are left out. -/
theorem ofLabel_canonical_pageTwo :
    let separator : Text := [' ', '_', '\u3000']
    separator ≠ [] ∧ (∀ c ∈ separator, isBlank c = true ∨ c = '_') ∧
      ofLabel .lower ("Page2".toList ++ separator ++ "Über Uns".toList) = "page_two_ber_uns".toList ∧
      ofLabel .lower ("Page2".toList ++ separator ++ "!".toList) = "page_two".toList := by
  have hne : [' ', '_', '\u3000'] ≠ ([] : Text) := by simp
  have hseparator : ∀ c ∈ [' ', '_', '\u3000'], isBlank c = true ∨ c = '_' := by
    rw [List.forall_mem_cons, List.forall_mem_cons, List.forall_mem_singleton]
    decide
  obtain ⟨-, -, -, hjoined⟩ := ofLabel_canonical .lower .upper "Page2"
  refine ⟨hne, hseparator, ?_, ?_⟩
  · rw [hjoined _ _ hne hseparator]
    decide +kernel
  · rw [hjoined _ _ hne hseparator]
    decide +kernel

end Identifier

end ViewBuilder
