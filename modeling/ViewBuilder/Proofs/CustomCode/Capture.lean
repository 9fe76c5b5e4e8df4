import ViewBuilder.CustomCode
import ViewBuilder.Proofs.CustomCode.Refill
import ViewBuilder.Proofs.Table

/-!
# Capturing bodies and putting them back

Of the regions of an earlier output every body is captured, the first one where an id is used
again. Without snippets, an update puts the captured bodies into the regions and changes nothing
else.
-/

namespace ViewBuilder.CustomCode

open Text Region

/-! ## Capturing -/

variable {state : CustomCode × Nat} {regions : List (Text × Text)} {id body prior : Text}

theorem captured?_captureOne (state : CustomCode × Nat) (region : Text × Text) (id : Text) :
    (captureOne state region).1.captured? id =
      (state.1.captured? id).or (if region.1 = id then some region.2 else none) := by
  refine Eq.trans ?_ (state.1.captured.get?_insert_of_missing region id)
  unfold captureOne captured?
  dsimp only
  split <;> rfl

/-- What is captured stays, and of several new bodies the first one counts. -/
theorem captured?_foldl (state : CustomCode × Nat) (regions : List (Text × Text)) (id : Text) :
    (regions.foldl captureOne state).1.captured? id =
      (state.1.captured? id).or (Entries.get? id regions) := by
  induction regions generalizing state with
  | nil => rw [Entries.get?, Option.or_none, List.foldl_nil]
  | cons region regions ih =>
    rw [List.foldl_cons, ih, captured?_captureOne, Option.or_assoc, Entries.get?]
    congr 1
    split <;> rfl

theorem captured?_capture (code : CustomCode) (prior id : Text) :
    (code.capture prior).1.captured? id =
      (code.captured? id).or (Entries.get? id (all prior)) :=
  captured?_foldl (code, 0) (all prior) id

theorem captured?_empty_capture (prior id : Text) :
    (empty.capture prior).1.captured? id = Entries.get? id (all prior) := by
  rw [captured?_capture, show empty.captured? id = none from rfl, Option.none_or]

theorem mem_of_captured? (h : (empty.capture prior).1.captured? id = some body) :
    (id, body) ∈ all prior := by
  rw [captured?_empty_capture] at h
  exact Entries.mem_of_get? h

/-- With one region for each id, every body is captured. -/
theorem captured?_of_mem_all {region : Text × Text} (hids : ((all prior).map (·.1)).Nodup)
    (hmem : region ∈ all prior) :
    (empty.capture prior).1.captured? region.1 = some region.2 := by
  rw [captured?_empty_capture]
  exact (Entries.get?_eq_some_iff hids).2 hmem

theorem snippets_foldl :
    (regions.foldl captureOne state).1.snippets = state.1.snippets := by
  induction regions generalizing state with
  | nil => rfl
  | cons region regions ih =>
    rw [List.foldl_cons, ih, captureOne]
    split <;> rfl

theorem snippets_capture (code : CustomCode) (prior : Text) :
    (code.capture prior).1.snippets = code.snippets :=
  snippets_foldl

/-! ## Putting back -/

/-- The body that a region has after an update. -/
def bodyFor (code : CustomCode) (id body : Text) : Text := (code.captured? id).getD body

theorem reinstatePiece_eq (code : CustomCode) :
    reinstatePiece code.captured.get? = Piece.refill code.bodyFor := by
  funext piece
  cases piece <;> rfl

theorem bodyFor_of_isEmpty {code : CustomCode} (h : code.captured.isEmpty = true) (id body : Text) :
    code.bodyFor id body = body := by
  have hnil : code.captured.entries = [] := List.isEmpty_iff.1 h
  unfold bodyFor captured? Table.get?
  rw [hnil]
  rfl

theorem update_eq {code : CustomCode} (h : code.snippets.isEmpty = true) (t : Text) :
    code.update t = textOf ((pieces t).map (Piece.refill code.bodyFor)) := by
  rw [update, expand, h, Bool.true_or, if_pos rfl, reinstate]
  split
  · rename_i hempty
    exact (textOf_refill_eq_self fun region _ =>
      bodyFor_of_isEmpty hempty region.1 region.2).symm
  · rw [reinstatePiece_eq, textOf]

end ViewBuilder.CustomCode
