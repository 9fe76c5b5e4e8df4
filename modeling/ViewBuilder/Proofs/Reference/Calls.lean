import ViewBuilder.Proofs.Text.Infix
import ViewBuilder.Reference

/-!
# The calls of a text

For each shape of call there is one way to divide a text into calls and what stands between them, if
each call begins at the first opening text that is left and ends at the first closing text behind
it. The scan finds the names of these calls. Division is said by where the two texts stand, and not
by how they are searched for.
-/

namespace ViewBuilder

open Text

/-- The name in a call, and the text between the call before and this one. -/
structure Called where
  gap : Text
  name : Text

namespace CallShape

def call (shape : CallShape) (name : Text) : Text := shape.opening ++ name ++ shape.closing

/-- The text of calls, each with what stands before it. -/
def textOf (shape : CallShape) (calls : List Called) : Text :=
  calls.flatMap fun called => called.gap ++ shape.call called.name

/-- No opening text is followed by a closing one. -/
def Callless (shape : CallShape) (t : Text) : Prop :=
  ∀ front behind, t = front ++ shape.opening ++ behind → ¬ shape.closing <:+: behind

/-- Calls and a last text that a text consists of. No text before a call runs into an opening text,
no name into a closing one, and no call is in the last text. -/
structure Divided (shape : CallShape) (t : Text) (calls : List Called) (last : Text) : Prop where
  text_eq : t = shape.textOf calls ++ last
  gap : ∀ called ∈ calls, OnlyAtEnd shape.opening called.gap
  name : ∀ called ∈ calls, OnlyAtEnd shape.closing called.name
  last : shape.Callless last

variable {shape : CallShape} {t last : Text} {called : Called} {calls : List Called}

/-! ## No call, and one more -/

theorem divided_nil_iff : shape.Divided t [] last ↔ t = last ∧ shape.Callless last := by
  constructor
  · intro h
    exact ⟨h.text_eq, h.last⟩
  · rintro ⟨rfl, hlast⟩
    exact ⟨rfl, nofun, nofun, hlast⟩

theorem divided_cons_iff :
    shape.Divided t (called :: calls) last ↔ ∃ behind rest,
      cut? shape.opening t = some (called.gap, behind) ∧
      cut? shape.closing behind = some (called.name, rest) ∧ shape.Divided rest calls last := by
  simp only [cut?_eq_some_iff_onlyAtEnd]
  constructor
  · intro h
    have hgap := List.forall_mem_cons.1 h.gap
    have hname := List.forall_mem_cons.1 h.name
    refine ⟨_, shape.textOf calls ++ last, ⟨?_, hgap.1⟩, ⟨rfl, hname.1⟩, rfl, hgap.2, hname.2,
      h.last⟩
    rw [h.text_eq]
    simp [textOf, call]
  · rintro ⟨_, rest, ⟨rfl, hgap⟩, ⟨rfl, hname⟩, h⟩
    constructor
    case text_eq =>
      rw [h.text_eq]
      simp [textOf, call]
    case gap => exact List.forall_mem_cons.2 ⟨hgap, h.gap⟩
    case name => exact List.forall_mem_cons.2 ⟨hname, h.name⟩
    case last => exact h.last

/-! ## Where the scan stops -/

theorem callless_of_cut?_opening (h : cut? shape.opening t = none) : shape.Callless t := by
  rintro front behind rfl -
  rw [cut?_eq_none_iff] at h
  exact h ⟨front, behind, rfl⟩

/-- Behind the first opening text is also what is behind any other. -/
theorem callless_of_cut?_closing {before behind : Text}
    (hopened : cut? shape.opening t = some (before, behind))
    (hclosed : cut? shape.closing behind = none) : shape.Callless t := by
  rintro front later heq hclosing
  obtain ⟨rfl, hfirst⟩ := cut?_eq_some_iff_onlyAtEnd.1 hopened
  rw [cut?_eq_none_iff] at hclosed
  exact hclosed (hclosing.trans (hfirst.suffix heq.symm).isInfix)

theorem Callless.not_cut? (h : shape.Callless t) {before behind name rest : Text}
    (hopened : cut? shape.opening t = some (before, behind)) :
    cut? shape.closing behind ≠ some (name, rest) := by
  intro hclosed
  refine h before behind (eq_of_cut? hopened) ⟨name, rest, ?_⟩
  exact (eq_of_cut? hclosed).symm

/-! ## One division -/

theorem exists_divided (shape : CallShape) (t : Text) :
    ∃ calls last, shape.Divided t calls last ∧ shape.names t = calls.map Called.name := by
  fun_induction names shape t with
  | case1 t hopened =>
    exact ⟨[], t, divided_nil_iff.2 ⟨rfl, callless_of_cut?_opening hopened⟩, rfl⟩
  | case2 t before behind hopened hclosed =>
    exact ⟨[], t, divided_nil_iff.2 ⟨rfl, callless_of_cut?_closing hopened hclosed⟩, rfl⟩
  | case3 t before behind hopened name rest hclosed ih =>
    obtain ⟨calls, last, hrest, hnames⟩ := ih
    refine ⟨⟨before, name⟩ :: calls, last, ?_, congrArg (name :: ·) hnames⟩
    exact divided_cons_iff.2 ⟨behind, rest, hopened, hclosed, hrest⟩

theorem Divided.unique {others : List Called} {other : Text} (h : shape.Divided t calls last)
    (ho : shape.Divided t others other) : others = calls ∧ other = last := by
  induction calls generalizing t others with
  | nil =>
    obtain ⟨rfl, hlast⟩ := divided_nil_iff.1 h
    cases others with
    | nil => exact ⟨rfl, (divided_nil_iff.1 ho).1.symm⟩
    | cons called others =>
      obtain ⟨_, _, hopened, hclosed, -⟩ := divided_cons_iff.1 ho
      exact absurd hclosed (hlast.not_cut? hopened)
  | cons called calls ih =>
    obtain ⟨behind, rest, hopened, hclosed, hrest⟩ := divided_cons_iff.1 h
    cases others with
    | nil =>
      obtain ⟨rfl, hlast⟩ := divided_nil_iff.1 ho
      exact absurd hclosed (hlast.not_cut? hopened)
    | cons other others =>
      obtain ⟨behind', rest', hopened', hclosed', hrest'⟩ := divided_cons_iff.1 ho
      obtain ⟨hgap, rfl⟩ := Prod.mk.inj (Option.some.inj (hopened.symm.trans hopened'))
      obtain ⟨hname, rfl⟩ := Prod.mk.inj (Option.some.inj (hclosed.symm.trans hclosed'))
      obtain ⟨rfl, rfl⟩ := ih hrest hrest'
      obtain ⟨gap, name⟩ := called
      obtain ⟨gap', name'⟩ := other
      obtain rfl : gap = gap' := hgap
      obtain rfl : name = name' := hname
      exact ⟨rfl, rfl⟩

theorem Divided.names_eq (h : shape.Divided t calls last) :
    shape.names t = calls.map Called.name := by
  obtain ⟨others, other, ho, hnames⟩ := shape.exists_divided t
  rw [hnames, (h.unique ho).1]

/-! ## What the scan finds -/

/-- For each shape, a text is divided into calls in one way only, and the scan finds the names of
these calls that are not empty, in order. The references of a text are those in single quotes and
then those in double quotes. -/
theorem scan_eq_names_of_division (t : Text) :
    (∀ shape : CallShape, ∃ calls last, shape.Divided t calls last ∧
      (∀ others other, shape.Divided t others other → others = calls ∧ other = last) ∧
      shape.scan t = (calls.map Called.name).filter fun name => !name.isEmpty) ∧
    (References.scan t).templates = templateSingle.scan t ++ templateDouble.scan t ∧
    (References.scan t).layouts = layoutSingle.scan t ++ layoutDouble.scan t := by
  refine ⟨fun shape => ?_, rfl, rfl⟩
  obtain ⟨calls, last, hdivided, hnames⟩ := shape.exists_divided t
  refine ⟨calls, last, hdivided, fun others other ho => hdivided.unique ho, ?_⟩
  rw [scan, hnames]

/-- A name ends at the closing text of its own shape, and empty names are left out. -/
example : layoutSingle.scan "JLayoutHelper::render('', 1) JLayoutHelper::render('a') b', 2)" =
    ["a') b".toList] := by
  decide +kernel

end CallShape

end ViewBuilder
