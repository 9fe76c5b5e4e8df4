import ViewBuilder.Text

/-!
# Marks with an id

A mark is an id between two fixed texts. An id is a run of letters, digits, underscores, dots and
hyphens, and not empty. The characters of an id never start what follows it, so the longest run
is the only one that can be an id.
-/

namespace ViewBuilder

/-- The texts around an id. -/
structure MarkShape where
  lead : Text
  tail : Text
  lead_ne_nil : lead ≠ []

namespace MarkShape

open Text

def isIdChar (c : Char) : Bool := c.isAlphanum || c = '_' || c = '.' || c = '-'

def write (shape : MarkShape) (id : Text) : Text := shape.lead ++ id ++ shape.tail

/-- The id of the mark that a text starts with, and what is behind the mark. -/
def start? (shape : MarkShape) (t : Text) : Option (Text × Text) :=
  (afterLead? shape.lead t).bind fun inside =>
    let id := inside.takeWhile isIdChar
    if id.isEmpty then none
    else (afterLead? shape.tail (inside.dropWhile isIdChar)).map fun rest => (id, rest)

/-- The first mark in a text: what is before it, its id, and what is behind it. -/
def find? (shape : MarkShape) : Text → Option (Text × Text × Text)
  | [] => none
  | c :: t =>
    match shape.start? (c :: t) with
    | some (id, rest) => some ([], id, rest)
    | none => (find? shape t).map fun (before, id, rest) => (c :: before, id, rest)

theorem eq_of_start? {shape : MarkShape} {t id rest : Text} (h : shape.start? t = some (id, rest)) :
    t = shape.write id ++ rest ∧ id ≠ [] ∧ ∀ c ∈ id, isIdChar c := by
  simp only [start?, Option.bind_eq_some_iff] at h
  obtain ⟨inside, hi, h⟩ := h
  split at h
  · cases h
  · rename_i hne
    simp only [Option.map_eq_some_iff, Prod.mk.injEq] at h
    obtain ⟨r, hr, rfl, rfl⟩ := h
    refine ⟨?_, by simpa using hne, fun c hc => ?_⟩
    · have := afterLead?_eq_some_iff.1 hr
      rw [afterLead?_eq_some_iff.1 hi, write, List.append_assoc, List.append_assoc, ← this,
        List.takeWhile_append_dropWhile]
    · exact List.all_eq_true.1 List.all_takeWhile c hc

theorem eq_of_find? {shape : MarkShape} {t before id rest : Text}
    (h : shape.find? t = some (before, id, rest)) :
    t = before ++ shape.write id ++ rest ∧ id ≠ [] ∧ ∀ c ∈ id, isIdChar c := by
  induction t generalizing before with
  | nil => simp [find?] at h
  | cons c t ih =>
    rw [find?] at h
    split at h
    · rename_i hs
      simp only [Option.some.injEq, Prod.mk.injEq] at h
      obtain ⟨rfl, rfl, rfl⟩ := h
      simpa using eq_of_start? hs
    · simp only [Option.map_eq_some_iff, Prod.mk.injEq] at h
      obtain ⟨⟨b, i, r⟩, hb, rfl, rfl, rfl⟩ := h
      obtain ⟨ht, hid⟩ := ih hb
      exact ⟨by simp [ht], hid⟩

theorem length_lt_of_find? {shape : MarkShape} {t before id rest : Text}
    (h : shape.find? t = some (before, id, rest)) : rest.length < t.length := by
  have := List.length_pos_iff.2 shape.lead_ne_nil
  rw [(eq_of_find? h).1]
  simp [write]
  omega

end MarkShape

end ViewBuilder
