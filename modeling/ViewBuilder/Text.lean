/-!
# Texts

A text is a list of characters, so cutting and joining texts are list operations, and what they
do is said by equations on lists.
-/

namespace ViewBuilder

abbrev Text := List Char

instance : Coe String Text := ⟨String.toList⟩

namespace Text

/-! ## What a text starts with -/

/-- The rest of a text that starts with `lead`. -/
def afterLead? : Text → Text → Option Text
  | [], t => some t
  | _ :: _, [] => none
  | l :: lead, c :: t => if l = c then afterLead? lead t else none

theorem afterLead?_eq_some_iff {lead t rest : Text} :
    afterLead? lead t = some rest ↔ t = lead ++ rest := by
  induction lead generalizing t with
  | nil => simp [afterLead?]
  | cons l lead ih =>
    cases t with
    | nil => simp [afterLead?]
    | cons c t =>
      by_cases h : l = c
      · simp [afterLead?, h, ih]
      · simp [afterLead?, h, Ne.symm h]

/-! ## The first place of a mark -/

/-- Cuts a text at the first place where `mark` stands: what is before it and what is behind. -/
def cut? (mark : Text) : Text → Option (Text × Text)
  | [] => (afterLead? mark []).map fun rest => ([], rest)
  | c :: t =>
    match afterLead? mark (c :: t) with
    | some rest => some ([], rest)
    | none => (cut? mark t).map fun (before, rest) => (c :: before, rest)

theorem eq_of_cut? {mark t before rest : Text} (h : cut? mark t = some (before, rest)) :
    t = before ++ mark ++ rest := by
  induction t generalizing before with
  | nil =>
    simp only [cut?, Option.map_eq_some_iff, Prod.mk.injEq] at h
    obtain ⟨r, hr, rfl, rfl⟩ := h
    simpa using afterLead?_eq_some_iff.1 hr
  | cons c t ih =>
    rw [cut?] at h
    split at h
    · rename_i r hr
      simp only [Option.some.injEq, Prod.mk.injEq] at h
      obtain ⟨rfl, rfl⟩ := h
      simpa using afterLead?_eq_some_iff.1 hr
    · simp only [Option.map_eq_some_iff, Prod.mk.injEq] at h
      obtain ⟨⟨b, r⟩, hb, rfl, rfl⟩ := h
      simp [ih hb]

theorem length_of_cut? {mark t before rest : Text} (h : cut? mark t = some (before, rest)) :
    t.length = before.length + mark.length + rest.length := by
  simp [eq_of_cut? h, Nat.add_assoc]

/-- What makes a loop over the places of a mark end. -/
theorem length_lt_of_cut? {mark t before rest : Text} (hm : mark ≠ [])
    (h : cut? mark t = some (before, rest)) : rest.length < t.length := by
  have := length_of_cut? h
  have := List.length_pos_iff.2 hm
  omega

def contains (mark t : Text) : Bool := (cut? mark t).isSome

/-! ## Replacing -/

/-- Puts `new` before each character and at the end. -/
def interleave (new : Text) : Text → Text
  | [] => new
  | c :: t => new ++ c :: interleave new t

/-- Replaces `old` by `new` from left to right, each time at the first place that is left.
The empty text stands before each character and at the end. -/
def replaceAll (old new t : Text) : Text :=
  if _empty : old = [] then interleave new t
  else
    match _found : cut? old t with
    | none => t
    | some (before, rest) => before ++ new ++ replaceAll old new rest
termination_by t.length
decreasing_by exact length_lt_of_cut? ‹_› ‹_›

/-! ## Splitting and joining -/

/-- The pieces between the characters that satisfy `p`; there is one more piece than such
characters. -/
def splitWhere (p : Char → Bool) : Text → List Text
  | [] => [[]]
  | c :: t =>
    if p c then [] :: splitWhere p t
    else
      match splitWhere p t with
      | [] => [[c]]
      | piece :: rest => (c :: piece) :: rest

def join (separator : Text) (pieces : List Text) : Text := separator.intercalate pieces

/-- The decimal digits of a number. -/
def ofNat (n : Nat) : Text := Nat.toDigits 10 n

def hexValue? (c : Char) : Option Nat :=
  if c.isDigit then some (c.toNat - '0'.toNat)
  else if 'a' ≤ c ∧ c ≤ 'f' then some (c.toNat - 'a'.toNat + 10)
  else if 'A' ≤ c ∧ c ≤ 'F' then some (c.toNat - 'A'.toNat + 10)
  else none

/-- The first number that does not fit 64 bits. -/
def wordLimit : Nat := Nat.pow 2 64

/-- The number that a list of decimal digits writes. -/
def digitsValue (digits : Text) : Nat :=
  digits.foldl (fun value c => 10 * value + (c.toNat - '0'.toNat)) 0

end Text

end ViewBuilder
