import Mathlib.Data.List.Lex
import ViewBuilder.Text

/-!
# The bytes of a text

Texts are ordered as their UTF-8 bytes are. An offset in bytes is a place in a text if it lies
between two characters or at an end, and the text between two places can be cut out.
-/

namespace ViewBuilder.Text

variable {s t w front back : Text} {n start stop : Nat}

def bytes (t : Text) : List UInt8 := t.flatMap String.utf8EncodeChar

theorem bytes_cons (c : Char) (t : Text) : bytes (c :: t) = String.utf8EncodeChar c ++ bytes t :=
  List.flatMap_cons

theorem bytes_append (s t : Text) : bytes (s ++ t) = bytes s ++ bytes t := List.flatMap_append

theorem utf8EncodeChar_ne_nil (c : Char) : String.utf8EncodeChar c ≠ [] := by
  rw [← List.length_pos_iff, String.length_utf8EncodeChar]
  exact c.utf8Size_pos

/-! ## The order -/

/-- A character with a smaller code point has smaller bytes, whatever comes behind: it may have fewer
of them, and its first ones are never all of those of the other. -/
theorem utf8EncodeChar_append_lt {c d : Char} (h : c < d) (left right : List UInt8) :
    String.utf8EncodeChar c ++ left < String.utf8EncodeChar d ++ right := by
  have hless : c.val.toNat < d.val.toNat := h
  have hlast : d.val.toNat < 0x110000 := by
    rcases d.valid with hd | ⟨-, hd⟩
    · exact Nat.lt_trans hd (by decide)
    · exact hd
  -- The bytes are digits to the base 64, so each quotient is one of the quotient before it.
  have hsecond : ∀ n, n / 4096 = n / 64 / 64 := fun n => by rw [Nat.div_div_eq_div_mul]
  have hthird : ∀ n, n / 262144 = n / 64 / 64 / 64 := fun n => by
    rw [Nat.div_div_eq_div_mul, Nat.div_div_eq_div_mul]
  unfold String.utf8EncodeChar
  dsimp only
  split_ifs <;>
    simp only [List.cons_append, List.nil_append, List.cons_lt_cons_iff, UInt8.lt_iff_toNat_lt,
      ← UInt8.toNat_inj, UInt8.toNat_ofNat', hsecond, hthird] <;>
    omega

theorem bytes_lt_of_lt (h : s < t) : bytes s < bytes t := by
  induction t generalizing s with
  | nil => exact absurd h (List.not_lt_nil s)
  | cons d t ih =>
    rw [bytes_cons]
    cases s with
    | nil =>
      obtain ⟨first, rest, hbytes⟩ := List.exists_cons_of_ne_nil (utf8EncodeChar_ne_nil d)
      rw [hbytes]
      exact List.nil_lt_cons _ _
    | cons c s =>
      rw [bytes_cons]
      rcases List.cons_lt_cons_iff.1 h with hless | ⟨rfl, hrest⟩
      · exact utf8EncodeChar_append_lt hless _ _
      · exact List.append_left_lt (ih hrest)

/-- The order of texts is the order of their bytes. -/
theorem bytes_lt_iff : bytes s < bytes t ↔ s < t := by
  refine ⟨fun h => ?_, bytes_lt_of_lt⟩
  rcases Std.lt_trichotomy s t with hless | rfl | hgreater
  · exact hless
  · exact absurd h (List.lt_irrefl _)
  · exact absurd h (List.lt_asymm (bytes_lt_of_lt hgreater))

/-! ## Offsets -/

def byteSize (t : Text) : Nat := (bytes t).length

theorem byteSize_cons (c : Char) (t : Text) : byteSize (c :: t) = c.utf8Size + byteSize t := by
  rw [byteSize, bytes_cons, List.length_append, String.length_utf8EncodeChar, byteSize]

theorem byteSize_append (s t : Text) : byteSize (s ++ t) = byteSize s + byteSize t := by
  rw [byteSize, bytes_append, List.length_append, byteSize, byteSize]

theorem byteSize_eq_zero_iff : byteSize t = 0 ↔ t = [] := by
  cases t with
  | nil => simp [byteSize, bytes]
  | cons c t =>
    have hpos := c.utf8Size_pos
    rw [byteSize_cons]
    simp
    omega

/-- Of two places in a text, what is before the first is before the second too. -/
theorem exists_eq_append_of_byteSize_le {other rest : Text} (h : front ++ back = other ++ rest)
    (hsize : byteSize front ≤ byteSize other) : ∃ mid, other = front ++ mid ∧ back = mid ++ rest := by
  rcases List.append_eq_append_iff.1 h with hlater | ⟨mid, rfl, rfl⟩
  · exact hlater
  · rw [byteSize_append] at hsize
    obtain rfl : mid = [] := byteSize_eq_zero_iff.1 (by omega)
    exact ⟨[], by simp, rfl⟩

/-- What is before an offset and what is behind it, if it is a place in the text. -/
def splitAt? : Nat → Text → Option (Text × Text)
  | 0, t => some ([], t)
  | _ + 1, [] => none
  | n + 1, c :: t =>
    if c.utf8Size ≤ n + 1 then
      (splitAt? (n + 1 - c.utf8Size) t).map fun (front, back) => (c :: front, back)
    else none

theorem splitAt?_append (front back : Text) :
    splitAt? (byteSize front) (front ++ back) = some (front, back) := by
  induction front with
  | nil => cases back <;> rfl
  | cons c front ih =>
    have hpos := c.utf8Size_pos
    obtain ⟨n, hn⟩ : ∃ n, byteSize (c :: front) = n + 1 :=
      Nat.exists_eq_add_one_of_ne_zero (mt byteSize_eq_zero_iff.1 (List.cons_ne_nil _ _))
    have hrest : n + 1 - c.utf8Size = byteSize front := by
      rw [← hn, byteSize_cons, Nat.add_sub_cancel_left]
    have hfits : c.utf8Size ≤ n + 1 := by
      rw [← hn, byteSize_cons]
      exact Nat.le_add_right _ _
    rw [hn, List.cons_append, splitAt?, if_pos hfits, hrest, ih]
    rfl

theorem splitAt?_eq_some_iff :
    splitAt? n t = some (front, back) ↔ t = front ++ back ∧ byteSize front = n := by
  refine ⟨fun h => ?_, fun ⟨ht, hn⟩ => by rw [ht, ← hn, splitAt?_append]⟩
  induction t generalizing n front with
  | nil =>
    cases n with
    | zero =>
      cases h
      exact ⟨rfl, rfl⟩
    | succ n => cases h
  | cons c t ih =>
    cases n with
    | zero =>
      cases h
      exact ⟨rfl, rfl⟩
    | succ n =>
      rw [splitAt?] at h
      split at h
      · rename_i hfits
        obtain ⟨⟨rest, back⟩, hrest, heq⟩ := Option.map_eq_some_iff.1 h
        cases heq
        obtain ⟨rfl, hsize⟩ := ih hrest
        refine ⟨rfl, ?_⟩
        rw [byteSize_cons, hsize]
        omega
      · cases h

/-- The text between two offsets. -/
def slice? (start stop : Nat) (t : Text) : Option Text :=
  (splitAt? stop t).bind fun (upTo, _) => (splitAt? start upTo).map (·.2)

theorem slice?_eq_some_iff :
    slice? start stop t = some w ↔
      ∃ front back, t = front ++ w ++ back ∧ byteSize front = start ∧ start + byteSize w = stop := by
  constructor
  · intro h
    obtain ⟨⟨upTo, back⟩, hstop, h⟩ := Option.bind_eq_some_iff.1 h
    obtain ⟨⟨front, inner⟩, hstart, rfl⟩ := Option.map_eq_some_iff.1 h
    obtain ⟨rfl, hsize⟩ := splitAt?_eq_some_iff.1 hstop
    obtain ⟨rfl, rfl⟩ := splitAt?_eq_some_iff.1 hstart
    exact ⟨front, back, rfl, rfl, by rw [← hsize, byteSize_append]⟩
  · rintro ⟨front, back, rfl, rfl, rfl⟩
    rw [slice?, ← byteSize_append, splitAt?_append, Option.bind_some]
    exact congrArg (Option.map (·.2)) (splitAt?_append front w)

end ViewBuilder.Text
