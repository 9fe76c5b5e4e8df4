import Mathlib
import ViewBuilder.Proofs.Text.Split
import ViewBuilder.Text.Numeral

/-!
# Reading numbers in words

The words of a number are read one after the other. Units and tens add to their group, the word for
hundred multiplies what its group has so far, and the name of a scale multiplies the group and
closes it. The words of a number that fits 64 bits are read as that number, so no other number has
them. They are also what comes from dividing by one scale after the other and spelling each
quotient, where a look in a table could find nothing, and never does.
-/

namespace ViewBuilder.Numeral

/-! ## What words mean -/

/-- What a word does to the number that is read. -/
inductive Meaning where
  | add (value : Nat)
  | hundred
  | scale (value : Nat)
deriving DecidableEq

def meanings : List (String × Meaning) :=
  [("zero", .add 0), ("one", .add 1), ("two", .add 2), ("three", .add 3), ("four", .add 4),
   ("five", .add 5), ("six", .add 6), ("seven", .add 7), ("eight", .add 8), ("nine", .add 9),
   ("ten", .add 10), ("eleven", .add 11), ("twelve", .add 12), ("thirteen", .add 13),
   ("fourteen", .add 14), ("fifteen", .add 15), ("sixteen", .add 16), ("seventeen", .add 17),
   ("eighteen", .add 18), ("nineteen", .add 19), ("twenty", .add 20), ("thirty", .add 30),
   ("forty", .add 40), ("fifty", .add 50), ("sixty", .add 60), ("seventy", .add 70),
   ("eighty", .add 80), ("ninety", .add 90), ("hundred", .hundred), ("thousand", .scale 1000),
   ("million", .scale 1000000), ("billion", .scale 1000000000),
   ("trillion", .scale 1000000000000), ("quadrillion", .scale 1000000000000000),
   ("quintillion", .scale 1000000000000000000)]

def meaning? (word : Text) : Option Meaning :=
  (meanings.find? fun entry => entry.1.toList = word).map (·.2)

/-- The number of the groups that are closed, and that of the open group. -/
structure Reading where
  closed : Nat
  group : Nat

def Reading.take (reading : Reading) : Meaning → Reading
  | .add value => { reading with group := reading.group + value }
  | .hundred => { reading with group := reading.group * 100 }
  | .scale value => ⟨reading.closed + reading.group * value, 0⟩

def Reading.step? (reading : Reading) (word : Text) : Option Reading :=
  (meaning? word).map reading.take

def Reading.read? (reading : Reading) (words : List Text) : Option Reading :=
  words.foldlM Reading.step? reading

/-- The number that words name; none if a word is no word of a number. -/
def read? (words : List Text) : Option Nat :=
  (Reading.read? ⟨0, 0⟩ words).map fun reading => reading.closed + reading.group

theorem meaning?_one : ∀ n : Fin 20, meaning? (one n) = some (.add n) := by
  decide +kernel

theorem meaning?_ten : ∀ n : Fin 10, 2 ≤ n → meaning? (ten n) = some (.add (10 * n)) := by
  decide +kernel

theorem blank_not_mem_of_meaning? {word : Text} {meaning : Meaning}
    (h : meaning? word = some meaning) : ' ' ∉ word := by
  have hall : ∀ entry ∈ meanings, ' ' ∉ entry.1.toList := by
    decide +kernel
  obtain ⟨entry, hfind, -⟩ := Option.map_eq_some_iff.1 h
  obtain rfl : entry.1.toList = word := by simpa using List.find?_some hfind
  exact hall entry (List.mem_of_find?_eq_some hfind)

/-! ## Reading groups -/

variable {n : Nat}

theorem Reading.read?_append (reading : Reading) (front behind : List Text) :
    reading.read? (front ++ behind) = (reading.read? front).bind fun next => next.read? behind :=
  List.foldlM_append ..

theorem Reading.read?_cons {reading : Reading} {word : Text} {meaning : Meaning}
    (h : meaning? word = some meaning) (rest : List Text) :
    reading.read? (word :: rest) = (reading.take meaning).read? rest := by
  rw [read?, List.foldlM_cons, step?, h]
  rfl

theorem Reading.read?_belowHundred (reading : Reading) (n : Fin 100) :
    reading.read? (belowHundred n) = some { reading with group := reading.group + n } := by
  unfold belowHundred
  split
  · rename_i small
    split
    · rename_i hzero
      rw [hzero]
      rfl
    · rw [read?_cons (meaning?_one ⟨n, small⟩)]
      rfl
  · rename_i large
    have hten : 2 ≤ (⟨n / 10, by omega⟩ : Fin 10) := by
      rw [Fin.le_def]
      show 2 ≤ n.val / 10
      omega
    rw [read?_cons (meaning?_ten _ hten)]
    dsimp only
    split
    · have htotal : reading.group + 10 * (n.val / 10) = reading.group + n.val := by omega
      exact congrArg (fun group => some (Reading.mk reading.closed group)) htotal
    · rw [read?_cons (meaning?_one _)]
      have htotal : reading.group + 10 * (n.val / 10) + n.val % 10 = reading.group + n.val := by
        omega
      exact congrArg (fun group => some (Reading.mk reading.closed group)) htotal

theorem meaning?_hundred : meaning? "hundred" = some .hundred := by
  decide +kernel

theorem Reading.read?_group (closed : Nat) (n : Fin 1000) :
    Reading.read? ⟨closed, 0⟩ (Numeral.group n) = some ⟨closed, n⟩ := by
  unfold Numeral.group
  dsimp only
  split
  · have htotal : 0 + n.val % 100 = n.val := by omega
    exact (read?_belowHundred _ _).trans
      (congrArg (fun group => some (Reading.mk closed group)) htotal)
  · rw [List.cons_append, List.singleton_append, read?_cons (meaning?_one _),
      read?_cons meaning?_hundred, read?_belowHundred]
    have htotal : (0 + n.val / 100) * 100 + n.val % 100 = n.val := by omega
    exact congrArg (fun group => some (Reading.mk closed group)) htotal

theorem scaleWords_eq {power digits : Nat} (h : n / 1000 ^ power % 1000 = digits)
    (hd : digits < 1000) (name : List Text) : scaleWords n (power, name) =
      if digits = 0 then [] else group ⟨digits, hd⟩ ++ name := by
  subst h
  rfl

/-- The group of a scale is multiplied by its value and closed. -/
theorem Reading.read?_scaleWords {name : Text} {value : Nat}
    (h : meaning? name = some (.scale value)) (closed power n : Nat) :
    Reading.read? ⟨closed, 0⟩ (scaleWords n (power, [name])) =
      some ⟨closed + n / 1000 ^ power % 1000 * value, 0⟩ := by
  rw [scaleWords_eq rfl (Nat.mod_lt _ (by decide))]
  split
  · rename_i hzero
    rw [hzero, Nat.zero_mul]
    rfl
  · rw [read?_append, read?_group, Option.bind_some, read?_cons h]
    rfl

/-- The last group has no name and stays open. -/
theorem Reading.read?_scaleWords_zero (closed n : Nat) :
    Reading.read? ⟨closed, 0⟩ (scaleWords n (0, [])) = some ⟨closed, n % 1000⟩ := by
  rw [scaleWords_eq (by rw [Nat.pow_zero, Nat.div_one]) (Nat.mod_lt n (by decide))]
  split
  · rename_i hzero
    rw [hzero]
    rfl
  · rw [List.append_nil, read?_group]

/-! ## Reading all groups -/

/-- The names of the scales from the top. -/
def scaleNames : List Text :=
  ["quintillion", "quadrillion", "trillion", "billion", "million", "thousand"]

/-- The powers of a thousand that names stand for, when the last one stands for a thousand. -/
def scalesOf : List Text → List (Nat × List Text)
  | [] => [(0, [])]
  | name :: rest => (rest.length + 1, [name]) :: scalesOf rest

theorem scales_eq : scales = scalesOf scaleNames := rfl

/-- Each name means the power of a thousand that it stands for. -/
def Named : List Text → Prop
  | [] => True
  | name :: rest => meaning? name = some (.scale (1000 ^ (rest.length + 1))) ∧ Named rest

theorem named_scaleNames : Named scaleNames := by
  refine ⟨?_, ?_, ?_, ?_, ?_, ?_, trivial⟩ <;> decide +kernel

theorem exists_read?_scalesOf {names : List Text} (h : Named names) (closed n : Nat) :
    ∃ reading, Reading.read? ⟨closed, 0⟩ ((scalesOf names).flatMap (scaleWords n)) = some reading ∧
      reading.closed + reading.group = closed + n % 1000 ^ (names.length + 1) := by
  induction names generalizing closed with
  | nil =>
    refine ⟨⟨closed, n % 1000⟩, ?_, rfl⟩
    rw [scalesOf, List.flatMap_singleton]
    exact Reading.read?_scaleWords_zero closed n
  | cons name rest ih =>
    obtain ⟨hname, hrest⟩ := h
    obtain ⟨reading, hread, htotal⟩ :=
      ih hrest (closed + n / 1000 ^ (rest.length + 1) % 1000 * 1000 ^ (rest.length + 1))
    refine ⟨reading, ?_, ?_⟩
    · rw [scalesOf, List.flatMap_cons, Reading.read?_append, Reading.read?_scaleWords hname,
        Option.bind_some, hread]
    · rw [htotal, List.length_cons, Nat.mod_pow_succ (k := rest.length + 1), Nat.mul_comm]
      omega

theorem read?_words (h : n < 1000 ^ 7) : read? (words n) = some n := by
  unfold words
  split
  · rename_i hzero
    rw [hzero, read?, Reading.read?_cons (meaning?_one 0)]
    rfl
  · obtain ⟨reading, hread, htotal⟩ := exists_read?_scalesOf named_scaleNames 0 n
    have hlength : scaleNames.length + 1 = 7 := rfl
    rw [hlength, Nat.mod_eq_of_lt h, Nat.zero_add] at htotal
    rw [read?, scales_eq, hread, Option.map_some, htotal]

/-! ## The words of a text -/

theorem Reading.exists_meaning?_of_read? {reading next : Reading} {words : List Text}
    (h : reading.read? words = some next) {word : Text} (hword : word ∈ words) :
    ∃ meaning, meaning? word = some meaning := by
  induction words generalizing reading with
  | nil => cases hword
  | cons first rest ih =>
    rw [read?, List.foldlM_cons] at h
    obtain ⟨middle, hfirst, hrest⟩ := Option.bind_eq_some_iff.1 h
    rcases List.mem_cons.1 hword with rfl | hword
    · obtain ⟨meaning, hmeaning, -⟩ := Option.map_eq_some_iff.1 hfirst
      exact ⟨meaning, hmeaning⟩
    · exact ih hrest hword

theorem blank_not_mem_of_mem_words (h : n < 1000 ^ 7) {word : Text} (hword : word ∈ words n) :
    ' ' ∉ word := by
  obtain ⟨reading, htotal, -⟩ := Option.map_eq_some_iff.1 (read?_words h)
  obtain ⟨meaning, hmeaning⟩ := Reading.exists_meaning?_of_read? htotal hword
  exact blank_not_mem_of_meaning? hmeaning

theorem words_ne_nil (h : n < 1000 ^ 7) : words n ≠ [] := by
  intro hnil
  have hread := read?_words h
  rw [hnil] at hread
  obtain rfl : 0 = n := Option.some.inj hread
  cases hnil

theorem splitWhere_text (h : n < 1000 ^ 7) : Text.splitWhere (· = ' ') (text n) = words n :=
  Text.splitWhere_join (words_ne_nil h) fun _ => blank_not_mem_of_mem_words h

/-! ## Spelling by division -/

/-- The words below a hundred, with a look in the tables that may find nothing. -/
def belowHundred? (n : Nat) : Option (List Text) :=
  if n < 20 then
    if n = 0 then some [] else ones[n]?.map fun word => [word]
  else
    tens[n / 10]?.bind fun ten =>
      if n % 10 = 0 then some [ten] else ones[n % 10]?.map fun one => [ten, one]

def belowThousand? (n : Nat) : Option (List Text) :=
  if n < 100 then belowHundred? n
  else
    ones[n / 100]?.bind fun hundreds =>
      (belowHundred? (n % 100)).map fun rest => hundreds :: "hundred" :: rest

mutual

/-- Divides by one scale after the other and spells each quotient in the same way. -/
def spell? (n : Nat) : Option (List Text) :=
  if n < 20 then ones[n]?.map fun word => [word] else spellFrom? scaleNames n
termination_by (n, scaleNames.length + 1)

def spellFrom? (names : List Text) (n : Nat) : Option (List Text) :=
  match names with
  | [] => belowThousand? n
  | name :: rest =>
    if _scale : 1000 ^ (rest.length + 1) ≤ n then
      (spell? (n / 1000 ^ (rest.length + 1))).bind fun front =>
        (spellFrom? rest (n % 1000 ^ (rest.length + 1))).map fun behind => front ++ name :: behind
    else spellFrom? rest n
termination_by (n, names.length)
decreasing_by
  · have hscale : 1 < 1000 ^ (rest.length + 1) := Nat.one_lt_pow (by omega) (by decide)
    exact .left _ _ (Nat.div_lt_self (by omega) hscale)
  · exact .left _ _ (Nat.lt_of_lt_of_le (Nat.mod_lt _ (Nat.pow_pos (by decide))) ‹_›)
  · exact .right _ (by simp)

end

theorem getElem?_ones (h : n < 20) : ones[n]? = some (one ⟨n, h⟩) :=
  List.getElem?_eq_getElem (l := ones) h

theorem getElem?_tens (h : n < 10) : tens[n]? = some (ten ⟨n, h⟩) :=
  List.getElem?_eq_getElem (l := tens) h

theorem belowHundred?_eq (h : n < 100) : belowHundred? n = some (belowHundred ⟨n, h⟩) := by
  unfold belowHundred? belowHundred
  by_cases hsmall : n < 20
  · rw [if_pos hsmall, dif_pos hsmall, getElem?_ones hsmall]
    dsimp only
    split <;> rfl
  · have hten : n / 10 < 10 := by omega
    have hone : n % 10 < 20 := by omega
    rw [if_neg hsmall, dif_neg hsmall, getElem?_tens hten, Option.bind_some, getElem?_ones hone]
    dsimp only
    split <;> rfl

theorem belowThousand?_eq (h : n < 1000) : belowThousand? n = some (group ⟨n, h⟩) := by
  unfold belowThousand? group
  dsimp only
  by_cases hsmall : n < 100
  · have hzero : n / 100 = 0 := by omega
    have hrest : n % 100 = n := by omega
    rw [if_pos hsmall, if_pos hzero, belowHundred?_eq hsmall, List.nil_append]
    simp only [hrest]
  · have hnonzero : n / 100 ≠ 0 := by omega
    have hone : n / 100 < 20 := by omega
    have hrest : n % 100 < 100 := by omega
    rw [if_neg hsmall, if_neg hnonzero, getElem?_ones hone, Option.bind_some,
      belowHundred?_eq hrest]
    rfl

theorem spellFrom?_of_lt (names : List Text) (h : n < 1000) :
    spellFrom? names n = some (group ⟨n, h⟩) := by
  induction names with
  | nil => rw [spellFrom?, belowThousand?_eq h]
  | cons name rest ih =>
    have hscale : ¬ 1000 ^ (rest.length + 1) ≤ n := by
      have := Nat.le_self_pow (Nat.succ_ne_zero rest.length) 1000
      omega
    rw [spellFrom?, dif_neg hscale, ih]

theorem spell?_of_lt (hpos : 0 < n) (h : n < 1000) : spell? n = some (group ⟨n, h⟩) := by
  rw [spell?]
  split
  · rename_i hsmall
    have hspell := spellFrom?_of_lt [] h
    have hnonzero : n ≠ 0 := by omega
    rwa [spellFrom?, belowThousand?, if_pos (by omega), belowHundred?, if_pos hsmall,
      if_neg hnonzero] at hspell
  · exact spellFrom?_of_lt scaleNames h

theorem length_of_mem_scalesOf {names : List Text} {entry : Nat × List Text}
    (h : entry ∈ scalesOf names) : entry.1 ≤ names.length := by
  induction names with
  | nil =>
    obtain rfl := List.mem_singleton.1 h
    exact Nat.le_refl 0
  | cons name rest ih =>
    rcases List.mem_cons.1 h with rfl | h
    · exact Nat.le_refl _
    · exact Nat.le_succ_of_le (ih h)

/-- The digits of a scale do not depend on what is above it. -/
theorem scaleWords_mod {power count : Nat} (h : power < count) (n : Nat) (name : List Text) :
    scaleWords (n % 1000 ^ count) (power, name) = scaleWords n (power, name) := by
  have hdigits : n % 1000 ^ count / 1000 ^ power % 1000 = n / 1000 ^ power % 1000 := by
    obtain ⟨more, rfl⟩ := Nat.exists_eq_add_of_lt h
    rw [Nat.add_assoc, Nat.pow_add, Nat.mod_mul_right_div_self, Nat.pow_succ,
      Nat.mod_mod_of_dvd _ (Nat.dvd_mul_left _ _)]
  rw [scaleWords_eq hdigits (Nat.mod_lt _ (by decide)), scaleWords_eq rfl]

theorem flatMap_scaleWords_mod (names : List Text) (n : Nat) :
    (scalesOf names).flatMap (scaleWords (n % 1000 ^ (names.length + 1))) =
      (scalesOf names).flatMap (scaleWords n) :=
  List.flatMap_congr fun _ hentry =>
    scaleWords_mod (Nat.lt_succ_of_le (length_of_mem_scalesOf hentry)) n _

theorem spellFrom?_eq {names : List Text} (h : n < 1000 ^ (names.length + 1)) :
    spellFrom? names n = some ((scalesOf names).flatMap (scaleWords n)) := by
  induction names generalizing n with
  | nil =>
    have hsmall : n < 1000 := h
    have hdigits : n / 1000 ^ 0 % 1000 = n := by
      rw [Nat.pow_zero, Nat.div_one, Nat.mod_eq_of_lt hsmall]
    rw [spellFrom?, belowThousand?_eq hsmall, scalesOf, List.flatMap_singleton,
      scaleWords_eq hdigits hsmall]
    split
    · rename_i hzero
      subst hzero
      simp [group, belowHundred]
    · rw [List.append_nil]
  | cons name rest ih =>
    have hpos : 0 < 1000 ^ (rest.length + 1) := Nat.pow_pos (by decide)
    have hquotient : n / 1000 ^ (rest.length + 1) < 1000 := by
      rw [Nat.div_lt_iff_lt_mul hpos, ← Nat.pow_succ']
      exact h
    rw [spellFrom?, scalesOf, List.flatMap_cons,
      scaleWords_eq (Nat.mod_eq_of_lt hquotient) hquotient]
    split
    · rename_i hscale
      have hnonzero : 0 < n / 1000 ^ (rest.length + 1) := Nat.div_pos hscale hpos
      rw [spell?_of_lt hnonzero hquotient, Option.bind_some, ih (Nat.mod_lt n hpos),
        Option.map_some, flatMap_scaleWords_mod, if_neg (Nat.ne_of_gt hnonzero), List.append_assoc]
      rfl
    · rename_i hscale
      have hless : n < 1000 ^ (rest.length + 1) := Nat.lt_of_not_le hscale
      rw [ih hless, if_pos (Nat.div_eq_of_lt hless), List.nil_append]

/-- No look in a table finds nothing, and the words are the same. -/
theorem spell?_eq (h : n < 1000 ^ 7) : spell? n = some (words n) := by
  have hfrom : spellFrom? scaleNames n = some (scales.flatMap (scaleWords n)) := spellFrom?_eq h
  unfold words
  split
  · rename_i hzero
    rw [hzero, spell?]
    rfl
  · rename_i hnonzero
    by_cases hsmall : n < 1000
    · rw [spell?_of_lt (Nat.pos_of_ne_zero hnonzero) hsmall, ← hfrom,
        spellFrom?_of_lt scaleNames hsmall]
    · rw [spell?, if_neg (by omega), hfrom]

/-! ## Numbers of 64 bits -/

theorem toNat_lt (n : UInt64) : n.toNat < 1000 ^ 7 :=
  Nat.lt_trans n.toNat_lt (by decide)

theorem read?_splitWhere_text (n : UInt64) :
    read? (Text.splitWhere (· = ' ') (text n.toNat)) = some n.toNat := by
  rw [splitWhere_text (toNat_lt n), read?_words (toNat_lt n)]

/-- The words of the text of a number are read as that number, so two numbers have two texts. No
look in a table finds nothing, neither for the number nor for a quotient on the way. -/
theorem text_reads_back :
    (∀ n : UInt64, read? (Text.splitWhere (· = ' ') (text n.toNat)) = some n.toNat ∧
      spell? n.toNat = some (words n.toNat)) ∧
    Function.Injective fun n : UInt64 => text n.toNat := by
  refine ⟨fun n => ⟨read?_splitWhere_text n, spell?_eq (toNat_lt n)⟩, fun n m htext => ?_⟩
  have hread : some n.toNat = some m.toNat := by
    rw [← read?_splitWhere_text, ← read?_splitWhere_text]
    exact congrArg (fun t => read? (Text.splitWhere (· = ' ') t)) htext
  exact UInt64.toNat_inj.1 (Option.some.inj hread)

end ViewBuilder.Numeral
