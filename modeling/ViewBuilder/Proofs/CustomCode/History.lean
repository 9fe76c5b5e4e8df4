import Mathlib.Algebra.GroupWithZero.Nat
import Mathlib.Data.List.Dedup
import ViewBuilder.Proofs.CustomCode.Capture

/-!
# A history of calls

Whatever is called in between, the body of an id is that of its first region, and the counts that
captures return add up to the number of ids. So when a text is captured and then updated itself,
each region gets the body of the first one with its id, and the text stays as it is exactly if
regions of one id have one body.
-/

namespace ViewBuilder

namespace Region

open Text MarkShape

/-! ## Bodies that end where they did -/

variable {f : Text → Text → Text} {t : Text} {cut : List Piece}

theorem Cut.not_closing_in_body (h : Cut t cut) {id body : Text} (hmem : .region id body ∈ cut) :
    ¬ closing.write id <:+: body ++ (closing.write id).dropLast := by
  induction h with
  | plain _ => simp at hmem
  | region _ _ hbody _ ih =>
    simp only [List.mem_cons, reduceCtorEq, false_or, Piece.region.injEq] at hmem
    rcases hmem with ⟨rfl, rfl⟩ | hmem
    · exact hbody
    · exact ih hmem
  | unclosed _ _ _ _ ih =>
    simp only [List.mem_cons, reduceCtorEq, false_or] at hmem
    exact ih hmem

/-- A text that stays as it is has kept its bodies, if the new ones too end at the first closing
marker of their id. -/
theorem Cut.refill_eq_self (h : Cut t cut)
    (hf : ∀ id body, .region id body ∈ cut →
      ¬ closing.write id <:+: f id body ++ (closing.write id).dropLast)
    (hsame : textOf (cut.map (Piece.refill f)) = t) {id body : Text}
    (hmem : .region id body ∈ cut) : f id body = body := by
  induction h with
  | plain _ => simp at hmem
  | @region before other old rest cut _ _ hold _ ih =>
    -- Both bodies are what is cut off of one text at the closing marker.
    have hbehind : old ++ closing.write other ++ rest =
        f other old ++ closing.write other ++ textOf (cut.map (Piece.refill f)) := by
      simpa [textOf, Piece.refill, Piece.text] using hsame.symm
    have hkept : cut? (closing.write other) (old ++ closing.write other ++ rest) =
        some (old, rest) :=
      (cut?_eq_some_iff (closing.write_ne_nil other)).2 ⟨rfl, hold⟩
    have hnew := (cut?_eq_some_iff (closing.write_ne_nil other)).2
      ⟨hbehind, hf other old (by simp)⟩
    rw [hkept] at hnew
    obtain ⟨hbody, hrest⟩ := Prod.mk.inj (Option.some.inj hnew)
    simp only [List.mem_cons, reduceCtorEq, false_or, Piece.region.injEq] at hmem
    rcases hmem with ⟨rfl, rfl⟩ | hmem
    · exact hbody.symm
    · exact ih (fun id body hmem => hf id body (by simp [hmem])) hrest.symm hmem
  | @unclosed before other behind cut _ _ _ _ ih =>
    have hbehind : textOf (cut.map (Piece.refill f)) = behind := by
      simpa [textOf, Piece.refill, Piece.text] using hsame
    simp only [List.mem_cons, reduceCtorEq, false_or] at hmem
    exact ih (fun id body hmem => hf id body (by simp [hmem])) hbehind hmem

theorem textOf_refill_eq_self_iff
    (hf : ∀ region ∈ all t,
      ¬ closing.write region.1 <:+: f region.1 region.2 ++ (closing.write region.1).dropLast) :
    textOf ((pieces t).map (Piece.refill f)) = t ↔
      ∀ region ∈ all t, f region.1 region.2 = region.2 := by
  refine ⟨fun hsame region hmem => ?_, textOf_refill_eq_self⟩
  exact (cut_pieces t).refill_eq_self (fun id body hin => hf (id, body) (mem_all_iff.2 hin)) hsame
    (mem_all_iff.1 hmem)

end Region

namespace CustomCode

open Text Region

/-! ## Calls -/

inductive Call where
  | capture (prior : Text)
  | register (id snippet : Text)
  | update (t : Text)

inductive Answer where
  | done
  | count (n : Nat)
  | text (t : Text)

def Answer.counted : Answer → Nat
  | .count n => n
  | _ => 0

/-- The regions that come in with a call, in order. -/
def Call.regions : Call → List (Text × Text)
  | .capture prior => all prior
  | _ => []

def perform (code : CustomCode) : Call → CustomCode × Answer
  | .capture prior => ((code.capture prior).1, .count (code.capture prior).2)
  | .register id snippet => (code.register id snippet, .done)
  | .update t => (code, .text (code.update t))

def performAll (code : CustomCode) : List Call → CustomCode × List Answer
  | [] => (code, [])
  | call :: rest =>
    let (next, answer) := code.perform call
    let (last, answers) := next.performAll rest
    (last, answer :: answers)

/-! ## What a call captures -/

variable (code : CustomCode)

theorem captured?_perform (call : Call) (id : Text) :
    (code.perform call).1.captured? id =
      (code.captured? id).or (Entries.get? id call.regions) := by
  cases call with
  | capture prior => exact code.captured?_capture prior id
  | register other snippet => exact (Option.or_none).symm
  | update t => exact (Option.or_none).symm

theorem count_captureOne (state : CustomCode × Nat) (region : Text × Text) :
    (captureOne state region).2 + state.1.captured.size =
      state.2 + (captureOne state region).1.captured.size := by
  unfold captureOne Table.contains
  dsimp only
  split
  · rfl
  · rename_i hnew
    have hsize := state.1.captured.size_insert region.1 region.2
    rw [if_neg hnew] at hsize
    dsimp only
    omega

theorem count_foldl (state : CustomCode × Nat) (regions : List (Text × Text)) :
    (regions.foldl captureOne state).2 + state.1.captured.size =
      state.2 + (regions.foldl captureOne state).1.captured.size := by
  induction regions generalizing state with
  | nil => rfl
  | cons region regions ih =>
    have hfirst := count_captureOne state region
    have hrest := ih (captureOne state region)
    rw [List.foldl_cons]
    omega

/-- The count that a call returns is by how many bodies there are more. -/
theorem counted_perform (call : Call) :
    (code.perform call).2.counted + code.captured.size = (code.perform call).1.captured.size := by
  cases call with
  | capture prior =>
    have hcount := count_foldl (code, 0) (all prior)
    rwa [Nat.zero_add] at hcount
  | register id snippet => exact Nat.zero_add _
  | update t => exact Nat.zero_add _

/-! ## What all calls capture -/

theorem captured?_performAll (calls : List Call) (id : Text) :
    (code.performAll calls).1.captured? id =
      (code.captured? id).or (Entries.get? id (calls.flatMap Call.regions)) := by
  induction calls generalizing code with
  | nil => exact (Option.or_none).symm
  | cons call rest ih =>
    rw [List.flatMap_cons, Entries.get?_append, ← Option.or_assoc, ← captured?_perform]
    exact ih (code.perform call).1

theorem counted_performAll (calls : List Call) :
    ((code.performAll calls).2.map Answer.counted).sum + code.captured.size =
      (code.performAll calls).1.captured.size := by
  induction calls generalizing code with
  | nil => exact Nat.zero_add _
  | cons call rest ih =>
    have hfirst := code.counted_perform call
    have hrest := ih (code.perform call).1
    rw [performAll, List.map_cons, List.sum_cons]
    dsimp only
    omega

theorem size_captured {code : CustomCode} {regions : List (Text × Text)}
    (h : ∀ id, code.captured? id = Entries.get? id regions) :
    code.captured.size = (regions.map Prod.fst).dedup.length := by
  have hids : ∀ id, id ∈ code.captured.keys ↔ id ∈ (regions.map Prod.fst).dedup := by
    intro id
    rw [Table.mem_keys_iff, List.mem_dedup, Option.isSome_iff_ne_none,
      show code.captured.get? id = Entries.get? id regions from h id, Ne,
      Entries.get?_eq_none_iff, not_not, Entries.keys]
  have hperm := (List.perm_ext_iff_of_nodup code.captured.nodup_keys (List.nodup_dedup _)).2 hids
  rw [← hperm.length_eq, Table.keys, List.length_map, Table.size]

/-! ## A text updated from itself -/

theorem update_capture_self (t : Text) :
    (empty.capture t).1.update t = textOf ((pieces t).map (Piece.refill fun id body =>
      (Entries.get? id (all t)).getD body)) := by
  have hsnippets : (empty.capture t).1.snippets.isEmpty = true := by
    rw [snippets_capture]
    rfl
  have hbody : (empty.capture t).1.bodyFor = fun id body =>
      (Entries.get? id (all t)).getD body := by
    funext id body
    rw [bodyFor, captured?_empty_capture]
  rw [update_eq hsnippets, hbody]

theorem exists_first {t : Text} {region : Text × Text} (h : region ∈ all t) :
    ∃ first ∈ all t, first.1 = region.1 ∧ Entries.get? region.1 (all t) = some first.2 := by
  cases hget : Entries.get? region.1 (all t) with
  | none => exact absurd (List.mem_map_of_mem h) (Entries.get?_eq_none_iff.1 hget)
  | some body => exact ⟨(region.1, body), Entries.mem_of_get? hget, rfl, rfl⟩

theorem update_capture_eq_self_iff (t : Text) :
    (empty.capture t).1.update t = t ↔
      ∀ first ∈ all t, ∀ second ∈ all t, first.1 = second.1 → first.2 = second.2 := by
  rw [update_capture_self, textOf_refill_eq_self_iff]
  · constructor
    · intro hkept first hfirst second hsecond hid
      obtain ⟨_, -, -, hget⟩ := exists_first hfirst
      have hone := hkept first hfirst
      have htwo := hkept second hsecond
      rw [hget, Option.getD_some] at hone
      rw [← hid, hget, Option.getD_some] at htwo
      exact hone.symm.trans htwo
    · intro hsame region hmem
      obtain ⟨first, hfirst, hid, hget⟩ := exists_first hmem
      rw [hget, Option.getD_some]
      exact hsame first hfirst region hmem hid
  · intro region hmem
    obtain ⟨first, hfirst, hid, hget⟩ := exists_first hmem
    rw [hget, Option.getD_some, ← hid]
    exact (cut_pieces t).not_closing_in_body (mem_all_iff.1 hfirst)

/-- After any calls the body of an id is that of its first region, over all that was captured in
the order of the calls and in each of these texts from left to right; what the captures returned
adds up to the number of ids. Updating a text after capturing it alone puts the first body of its
id into each region, and changes nothing exactly if the regions of an id have one body. -/
theorem first_body_counts (calls : List Call) (t : Text) :
    (∀ id, (empty.performAll calls).1.captured? id =
      Entries.get? id (calls.flatMap Call.regions)) ∧
    ((empty.performAll calls).2.map Answer.counted).sum =
      ((calls.flatMap Call.regions).map Prod.fst).dedup.length ∧
    (empty.capture t).1.update t = textOf ((pieces t).map (Piece.refill fun id body =>
      (Entries.get? id (all t)).getD body)) ∧
    ((empty.capture t).1.update t = t ↔
      ∀ first ∈ all t, ∀ second ∈ all t, first.1 = second.1 → first.2 = second.2) := by
  have hcaptured : ∀ id, (empty.performAll calls).1.captured? id =
      Entries.get? id (calls.flatMap Call.regions) := by
    intro id
    rw [captured?_performAll, show empty.captured? id = none from rfl, Option.none_or]
  have hcount := empty.counted_performAll calls
  refine ⟨hcaptured, ?_, update_capture_self t, update_capture_eq_self_iff t⟩
  rw [← size_captured hcaptured, ← hcount]
  rfl

/-- The second region of an id loses its body to the first. -/
example : (empty.capture ((Piece.region "a" "1").text ++ (Piece.region "a" "2").text)).1.update
    ((Piece.region "a" "1").text ++ (Piece.region "a" "2").text) =
      (Piece.region "a" "1").text ++ (Piece.region "a" "1").text := by
  decide +kernel

end CustomCode

end ViewBuilder
