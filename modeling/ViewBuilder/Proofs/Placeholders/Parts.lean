import ViewBuilder.Proofs.Placeholders.Forms

/-!
# Texts with placeholders

A text is seen as its parts: ordinary text and placeholders. The same parts can be written in
either form, or with the values in the place of the placeholders. A plain text holds no character
of a delimiter.
-/

namespace ViewBuilder.Placeholders

open Text

def Plain (t : Text) : Prop := '[' ∉ t ∧ ']' ∉ t ∧ '#' ∉ t

instance (t : Text) : Decidable (Plain t) := inferInstanceAs (Decidable (_ ∧ _ ∧ _))

/-- The value of one key alone. -/
def only (key value other : Text) : Option Text := if other = key then some value else none

theorem only_self (key value : Text) : only key value key = some value := if_pos rfl

theorem only_of_ne {key other : Text} (h : other ≠ key) (value : Text) :
    only key value other = none :=
  if_neg h

/-! ## Parts -/

inductive Part where
  | literal (t : Text)
  | token (key : Text)
deriving DecidableEq

namespace Part

def text (form : Text → Text) : Part → Text
  | literal t => t
  | token key => form key

/-- Puts in the values that are known. -/
def fill (value? : Text → Option Text) : Part → Part
  | literal t => literal t
  | token key =>
    match value? key with
    | some value => literal value
    | none => token key

def Plain : Part → Prop
  | literal t => Placeholders.Plain t
  | token key => Placeholders.Plain key

variable {value? : Text → Option Text}

theorem fill_fill (value? other? : Text → Option Text) (part : Part) :
    (part.fill value?).fill other? = part.fill fun key => (value? key).or (other? key) := by
  cases part with
  | literal t => rfl
  | token key =>
    rw [fill, fill]
    cases value? key <;> rfl

theorem fill_none : fill (fun _ => none) = id := by
  funext part
  cases part <;> rfl

theorem Plain.fill {part : Part} (h : part.Plain)
    (hvalue : ∀ key value, value? key = some value → Placeholders.Plain value) :
    (part.fill value?).Plain := by
  cases part with
  | literal t => exact h
  | token key =>
    rw [Part.fill]
    split
    · rename_i value hkey
      exact hvalue key value hkey
    · exact h

/-- A character that no plain text holds comes into a part by its form only. -/
theorem Plain.not_mem_text {part : Part} {c : Char} {form : Text → Text} (h : part.Plain)
    (hplain : ∀ t, Placeholders.Plain t → c ∉ t) (hform : ∀ key, c ∉ key → c ∉ form key) :
    c ∉ part.text form := by
  cases part with
  | literal t => exact hplain t h
  | token key => exact hform key (hplain key h)

end Part

/-! ## Writing parts -/

/-- The text of the parts, with the placeholders in a given form. -/
def write (form : Text → Text) (parts : List Part) : Text := parts.flatMap (Part.text form)

variable {form : Text → Text} {parts : List Part} {c : Char}

theorem write_cons (form : Text → Text) (part : Part) (parts : List Part) :
    write form (part :: parts) = part.text form ++ write form parts :=
  List.flatMap_cons

theorem write_append (form : Text → Text) (front behind : List Part) :
    write form (front ++ behind) = write form front ++ write form behind :=
  List.flatMap_append

theorem not_mem_write (h : ∀ part ∈ parts, c ∉ part.text form) : c ∉ write form parts := by
  intro hc
  obtain ⟨part, hpart, hmem⟩ := List.mem_flatMap.1 hc
  exact h part hpart hmem

theorem write_fill {value? : Text → Option Text} {value : Text → Text}
    (h : ∀ key, .token key ∈ parts → value? key = some (value key)) :
    write form (parts.map (Part.fill value?)) = write value parts := by
  unfold write
  rw [List.flatMap_map]
  refine List.flatMap_congr fun part hpart => ?_
  cases part with
  | literal t => rfl
  | token key =>
    rw [Part.fill, h key hpart]
    rfl

theorem not_infix_write {w : Text} (h : ∀ part ∈ parts, c ∉ part.text form) :
    ¬ c :: w <:+: write form parts :=
  fun hform => not_mem_write h (hform.subset List.mem_cons_self)

/-- A character that begins neither of two adjacent texts does not begin both. -/
theorem not_cons_prefix_append {d : Char} {k w t : Text} (hk : c ∉ k) (hd : c ≠ d) :
    ¬ c :: w <+: k ++ d :: t := by
  intro h
  cases k with
  | nil => exact hd (List.cons_prefix_cons.1 h).1
  | cons e k =>
    obtain rfl := (List.cons_prefix_cons.1 h).1
    exact hk List.mem_cons_self

end ViewBuilder.Placeholders
