import ViewBuilder.Proofs.CustomCode.Cut
import ViewBuilder.Proofs.CustomCode.History
import ViewBuilder.Proofs.Text.Replace

/-!
# Inline references

A mark whose first character is nowhere else in it does not overlap another one, so a text divides
into marks and what stands between them in one way only. An update without captured bodies puts the
snippets in the places of these references, all at once: what a snippet holds is not looked at again.
-/

namespace ViewBuilder

open Text

/-! ## Marks that cannot overlap -/

/-- A mark by its id, and the text between the mark before and this one. -/
structure Marked where
  gap : Text
  id : Text

namespace MarkShape

/-- Marks begin with a character that is nowhere else in them. -/
def Headed (shape : MarkShape) : Prop :=
  ∃ c w, shape.lead = c :: w ∧ c ∉ w ∧ isIdChar c = false ∧ c ∉ shape.tail

/-- A text holds a mark. -/
def Holds (shape : MarkShape) (t : Text) : Prop := ∃ id, IsId id ∧ shape.write id <:+: t

/-- The text of marks, each with what stands before it. -/
def writeAll (shape : MarkShape) (marks : List Marked) : Text :=
  marks.flatMap fun mark => mark.gap ++ shape.write mark.id

/-- Marks and a last text that a text consists of, with no mark in between or behind. -/
structure Divided (shape : MarkShape) (t : Text) (marks : List Marked) (last : Text) : Prop where
  text_eq : t = shape.writeAll marks ++ last
  isId : ∀ mark ∈ marks, IsId mark.id
  gap : ∀ mark ∈ marks, ¬ shape.Holds mark.gap
  last : ¬ shape.Holds last

variable {shape : MarkShape} {t before id other rest last : Text} {mark : Marked}
  {marks : List Marked}

theorem find?_eq_none_iff_not_holds (hs : shape.Sharp) :
    shape.find? t = none ↔ ¬ shape.Holds t := by
  rw [find?_eq_none_iff hs, Holds]
  simp

theorem Headed.exists_write (hh : shape.Headed) :
    ∃ c, ∀ id, IsId id → ∃ w, shape.write id = c :: w ∧ c ∉ w := by
  obtain ⟨c, w, hlead, hw, hc, htail⟩ := hh
  refine ⟨c, fun id hid => ⟨w ++ id ++ shape.tail, by simp [write, hlead], ?_⟩⟩
  have hnot : c ∉ id := fun hmem => by simp [hid.2 c hmem] at hc
  simp [hw, hnot, htail]

/-- A mark does not run into another one. -/
theorem Headed.prefix_of_prefix_append {d : Char} {front : Text} (hh : shape.Headed)
    (hid : IsId id) (hother : IsId other)
    (h : shape.write other <+: d :: front ++ shape.write id ++ rest) :
    shape.write other <+: d :: front := by
  obtain ⟨c, hwrite⟩ := hh.exists_write
  obtain ⟨w, hw, -⟩ := hwrite id hid
  obtain ⟨v, hv, hc⟩ := hwrite other hother
  rw [hw, hv, List.append_assoc, List.cons_append, List.cons_append, List.cons_prefix_cons] at h
  rw [hv]
  exact List.cons_prefix_cons.2 ⟨h.1, prefix_of_not_mem hc h.2⟩

/-- The first mark is the one before which there is none. -/
theorem find?_eq_some_iff (hs : shape.Sharp) (hh : shape.Headed) :
    shape.find? t = some (before, id, rest) ↔
      t = before ++ shape.write id ++ rest ∧ IsId id ∧ ¬ shape.Holds before := by
  constructor
  · intro h
    obtain ⟨heq, hid⟩ := eq_of_find? h
    refine ⟨heq, hid, ?_⟩
    induction t generalizing before with
    | nil => cases h
    | cons c t ih =>
      rw [find?] at h
      split at h
      · cases h
        rintro ⟨other, -, hplace⟩
        exact shape.write_ne_nil other (List.infix_nil.1 hplace)
      · rename_i hnone
        simp only [Option.map_eq_some_iff, Prod.mk.injEq] at h
        obtain ⟨⟨front, found, behind⟩, hfind, rfl, rfl, rfl⟩ := h
        rintro ⟨other, hother, hplace⟩
        rcases List.infix_cons_iff.1 hplace with ⟨after, hafter⟩ | hplace
        · have hstart : shape.start? (c :: t) = some (other, after ++ shape.write found ++ behind) :=
            (start?_eq_some_iff hs).2 ⟨by rw [heq, ← hafter]; simp, hother⟩
          rw [hstart] at hnone
          cases hnone
        · exact ih hfind (List.cons.inj heq).2 ⟨other, hother, hplace⟩
  · rintro ⟨rfl, hid, hfirst⟩
    induction before with
    | nil =>
      obtain ⟨c, hwrite⟩ := hh.exists_write
      obtain ⟨w, hw, -⟩ := hwrite id hid
      have hstart : shape.start? (shape.write id ++ rest) = some (id, rest) :=
        (start?_eq_some_iff hs).2 ⟨rfl, hid⟩
      rw [hw, List.cons_append] at hstart
      rw [List.nil_append, hw, List.cons_append, find?, hstart]
    | cons c before ih =>
      have hnone : shape.start? (c :: (before ++ shape.write id ++ rest)) = none := by
        rw [Option.eq_none_iff_forall_ne_some]
        rintro ⟨other, after⟩ hsome
        obtain ⟨heq, hother⟩ := (start?_eq_some_iff hs).1 hsome
        have hbegin := hh.prefix_of_prefix_append hid hother ⟨after, heq.symm⟩
        exact hfirst ⟨other, hother, hbegin.isInfix⟩
      have hbefore : ¬ shape.Holds before := by
        rintro ⟨other, hother, hplace⟩
        exact hfirst ⟨other, hother, List.infix_cons hplace⟩
      rw [List.cons_append, List.cons_append, find?, hnone, ih hbefore]
      rfl

/-! ## One division -/

theorem divided_nil_iff : shape.Divided t [] last ↔ t = last ∧ ¬ shape.Holds last := by
  constructor
  · intro h
    exact ⟨h.text_eq, h.last⟩
  · rintro ⟨rfl, hlast⟩
    exact ⟨rfl, nofun, nofun, hlast⟩

theorem divided_cons_iff (hs : shape.Sharp) (hh : shape.Headed) :
    shape.Divided t (mark :: marks) last ↔
      ∃ rest, shape.find? t = some (mark.gap, mark.id, rest) ∧ shape.Divided rest marks last := by
  simp only [find?_eq_some_iff hs hh]
  constructor
  · intro h
    have hid := List.forall_mem_cons.1 h.isId
    have hgap := List.forall_mem_cons.1 h.gap
    refine ⟨shape.writeAll marks ++ last, ⟨?_, hid.1, hgap.1⟩, rfl, hid.2, hgap.2, h.last⟩
    rw [h.text_eq]
    simp [writeAll]
  · rintro ⟨rest, ⟨rfl, hid, hgap⟩, h⟩
    constructor
    case text_eq =>
      rw [h.text_eq]
      simp [writeAll]
    case isId => exact List.forall_mem_cons.2 ⟨hid, h.isId⟩
    case gap => exact List.forall_mem_cons.2 ⟨hgap, h.gap⟩
    case last => exact h.last

theorem Divided.unique (hs : shape.Sharp) (hh : shape.Headed) {others : List Marked}
    {final : Text} (h : shape.Divided t marks last) (ho : shape.Divided t others final) :
    others = marks ∧ final = last := by
  induction marks generalizing t others with
  | nil =>
    obtain ⟨rfl, hlast⟩ := divided_nil_iff.1 h
    cases others with
    | nil => exact ⟨rfl, (divided_nil_iff.1 ho).1.symm⟩
    | cons mark others =>
      obtain ⟨_, hfound, -⟩ := (divided_cons_iff hs hh).1 ho
      rw [(find?_eq_none_iff_not_holds hs).2 hlast] at hfound
      cases hfound
  | cons mark marks ih =>
    obtain ⟨rest, hfound, hrest⟩ := (divided_cons_iff hs hh).1 h
    cases others with
    | nil =>
      obtain ⟨rfl, hlast⟩ := divided_nil_iff.1 ho
      rw [(find?_eq_none_iff_not_holds hs).2 hlast] at hfound
      cases hfound
    | cons other others =>
      obtain ⟨rest', hfound', hrest'⟩ := (divided_cons_iff hs hh).1 ho
      obtain ⟨gap, id⟩ := mark
      obtain ⟨gap', id'⟩ := other
      rw [hfound] at hfound'
      cases hfound'
      obtain ⟨rfl, rfl⟩ := ih hrest hrest'
      exact ⟨rfl, rfl⟩

end MarkShape

namespace CustomCode

open MarkShape

/-! ## References -/

theorem sharp_reference : reference.Sharp := ⟨']', [], rfl, by decide⟩

theorem headed_reference : reference.Headed :=
  ⟨'[', "CUSTOMCODE=", rfl, by decide, by decide, by decide⟩

/-- What marks become when each one gives way to its snippet, if it has one. -/
def expansion (snippet? : Text → Option Text) (marks : List Marked) (last : Text) : Text :=
  (marks.flatMap fun mark => mark.gap ++ (snippet? mark.id).getD (reference.write mark.id)) ++ last

theorem exists_divided_reference (snippet? : Text → Option Text) (t : Text) :
    ∃ marks last, reference.Divided t marks last ∧
      replaceReferences snippet? t = expansion snippet? marks last := by
  fun_induction replaceReferences snippet? t with
  | case1 t hnone =>
    have hlast := (find?_eq_none_iff_not_holds sharp_reference).1 hnone
    exact ⟨[], t, divided_nil_iff.2 ⟨rfl, hlast⟩, rfl⟩
  | case2 t before id rest hfound ih =>
    obtain ⟨marks, last, hrest, hexpanded⟩ := ih
    refine ⟨⟨before, id⟩ :: marks, last, ?_, ?_⟩
    · exact (divided_cons_iff sharp_reference headed_reference).2 ⟨rest, hfound, hrest⟩
    · rw [hexpanded]
      simp [expansion]

theorem expansion_none (marks : List Marked) (last : Text) :
    expansion (fun _ => none) marks last = reference.writeAll marks ++ last := rfl

/-! ## Leaving early -/

theorem replaceReferences_none (t : Text) : replaceReferences (fun _ => none) t = t := by
  obtain ⟨marks, last, hdivided, hexpanded⟩ := exists_divided_reference (fun _ => none) t
  rw [hexpanded, expansion_none, ← hdivided.text_eq]

theorem replaceReferences_of_no_lead (snippet? : Text → Option Text) {t : Text}
    (h : ¬ reference.lead <:+: t) : replaceReferences snippet? t = t := by
  obtain ⟨marks, last, hdivided, hexpanded⟩ := exists_divided_reference snippet? t
  cases marks with
  | nil => exact hexpanded.trans hdivided.text_eq.symm
  | cons mark marks =>
    refine absurd ⟨mark.gap, mark.id ++ reference.tail ++ (reference.writeAll marks ++ last), ?_⟩ h
    rw [hdivided.text_eq]
    simp [writeAll, write]

theorem expand_eq (code : CustomCode) (t : Text) :
    code.expand t = replaceReferences code.snippets.get? t := by
  rw [expand]
  split
  · rename_i hleave
    rw [Bool.or_eq_true, Bool.not_eq_true', ← Bool.not_eq_true, contains_iff] at hleave
    rcases hleave with hempty | hlead
    · have hnone : code.snippets.get? = fun _ => none := by
        funext id
        rw [Table.get?, List.isEmpty_iff.1 hempty]
        rfl
      rw [hnone, replaceReferences_none]
    · rw [replaceReferences_of_no_lead _ hlead]
  · rfl

/-! ## An update -/

/-- The snippets that come in with a call. -/
def Call.snippets : Call → List (Text × Text)
  | .register id snippet => [(id, snippet)]
  | _ => []

theorem get?_snippets_perform (code : CustomCode) (call : Call) (id : Text) :
    (code.perform call).1.snippets.get? id =
      (Entries.last? id call.snippets).or (code.snippets.get? id) := by
  cases call with
  | capture prior => exact congrArg (Table.get? · id) (code.snippets_capture prior)
  | register other snippet => exact Table.keyed.read_foldl code.snippets [(other, snippet)] id
  | update t => rfl

/-- Of several snippets that are registered for an id the last one stays. -/
theorem get?_snippets_performAll (code : CustomCode) (calls : List Call) (id : Text) :
    (code.performAll calls).1.snippets.get? id =
      (Entries.last? id (calls.flatMap Call.snippets)).or (code.snippets.get? id) := by
  induction calls generalizing code with
  | nil => rfl
  | cons call rest ih =>
    rw [List.flatMap_cons, Entries.last?_append, Option.or_assoc, ← get?_snippets_perform]
    exact ih (code.perform call).1

theorem update_eq_expand {code : CustomCode} (h : ∀ id, code.captured? id = none) (t : Text) :
    code.update t = code.expand t := by
  have hempty : code.captured.entries = [] := by
    rw [List.eq_nil_iff_forall_not_mem]
    rintro ⟨id, body⟩ hmem
    have hnone := (Table.mem_entries_iff.1 hmem).symm.trans (h id)
    cases hnone
  have hleave : code.captured.isEmpty = true := List.isEmpty_iff.2 hempty
  rw [update, reinstate, if_pos hleave]

/-- After any calls that capture nothing: a text divides in one way only into references and text
without a reference, and its update is the text between them as it is, with the last snippet
registered for its id in the place of each reference, if there is one, and else with the reference.
Leaving early makes no difference to the pass over all references. -/
theorem update_expands_division (calls : List Call) (t : Text)
    (h : ∀ id, (empty.performAll calls).1.captured? id = none) :
    let code := (empty.performAll calls).1
    let snippet? := fun id => Entries.last? id (calls.flatMap Call.snippets)
    (∃ marks last, reference.Divided t marks last ∧
      (∀ others final, reference.Divided t others final → others = marks ∧ final = last) ∧
      code.update t = expansion snippet? marks last) ∧
    code.update t = replaceReferences snippet? t := by
  intro code snippet?
  have hsnippets : code.snippets.get? = snippet? := by
    funext id
    exact (get?_snippets_performAll empty calls id).trans Option.or_none
  have hupdate : code.update t = replaceReferences snippet? t := by
    rw [update_eq_expand h, expand_eq, hsnippets]
  obtain ⟨marks, last, hdivided, hexpanded⟩ := exists_divided_reference snippet? t
  refine ⟨⟨marks, last, hdivided, fun others final ho => ?_, hupdate.trans hexpanded⟩, hupdate⟩
  exact hdivided.unique sharp_reference headed_reference ho

/-- Snippets with references to each other, of which one is registered again. -/
def crossCalls : List Call :=
  [.register "a" "[CUSTOMCODE=b]", .register "b" "x", .capture "no region", .register "c" "a",
   .register "b" "[CUSTOMCODE=a]"]

def crossText : Text := "[CUSTOMCODE=[CUSTOMCODE=c]] [CUSTOMCODE=b] [CUSTOMCODE=d] [CUSTOMCODE=a"

/-- The snippets complete references and hold some, and these stay as they are. -/
theorem update_expands_division_crossCalls :
    (∀ id, (empty.performAll crossCalls).1.captured? id = none) ∧
      (empty.performAll crossCalls).1.update crossText =
        "[CUSTOMCODE=a] [CUSTOMCODE=a] [CUSTOMCODE=d] [CUSTOMCODE=a".toList := by
  have hregions : crossCalls.flatMap Call.regions = [] := by decide +kernel
  have hnone : ∀ id, (empty.performAll crossCalls).1.captured? id = none := by
    intro id
    rw [captured?_performAll, hregions]
    rfl
  refine ⟨hnone, ?_⟩
  rw [(update_expands_division crossCalls crossText hnone).2]
  decide +kernel

end CustomCode

end ViewBuilder
