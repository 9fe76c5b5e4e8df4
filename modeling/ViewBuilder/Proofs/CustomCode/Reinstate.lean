import ViewBuilder.Proofs.CustomCode.Capture

/-!
# Hand edits stay

An update changes nothing but the bodies of the regions that were captured. What it leaves has the
same regions again, so a second update changes nothing, and capturing from it gives the same bodies.
Regions that nobody captured may hold anything, markers too.
-/

namespace ViewBuilder.CustomCode

open Text Region

variable {code : CustomCode} {t : Text}

/-! ## What an update leaves -/

/-- No captured body holds the word of the markers. -/
def Plain (code : CustomCode) : Prop := ∀ id body, code.captured? id = some body → Keyless body

theorem Plain.bodyFor (h : code.Plain) (id body : Text) :
    code.bodyFor id body = body ∨ Keyless (code.bodyFor id body) := by
  unfold CustomCode.bodyFor
  cases hcaptured : code.captured? id with
  | none => exact .inl rfl
  | some edited => exact .inr (h id edited hcaptured)

theorem Plain.pieces_update (h : code.Plain) (hsnippets : code.snippets.isEmpty = true) :
    pieces (code.update t) = (pieces t).map (Piece.refill code.bodyFor) := by
  rw [update_eq hsnippets]
  exact pieces_refill fun region _ => h.bodyFor region.1 region.2

theorem Plain.all_update (h : code.Plain) (hsnippets : code.snippets.isEmpty = true) :
    all (code.update t) = (all t).map fun region =>
      (region.1, code.bodyFor region.1 region.2) := by
  rw [update_eq hsnippets]
  exact all_refill fun region _ => h.bodyFor region.1 region.2

theorem bodyFor_bodyFor (id body : Text) :
    code.bodyFor id (code.bodyFor id body) = code.bodyFor id body := by
  unfold bodyFor
  cases code.captured? id with
  | none => rfl
  | some edited => rfl

theorem refill_refill (piece : Piece) :
    (piece.refill code.bodyFor).refill code.bodyFor = piece.refill code.bodyFor := by
  cases piece with
  | plain t => rfl
  | unclosed id => rfl
  | region id body => exact congrArg (Piece.region id) (bodyFor_bodyFor id body)

theorem Plain.update_update (h : code.Plain) (hsnippets : code.snippets.isEmpty = true) :
    code.update (code.update t) = code.update t := by
  rw [update_eq hsnippets, h.pieces_update hsnippets, List.map_map, update_eq hsnippets]
  congr 2
  funext piece
  exact refill_refill piece

/-! ## Capturing again -/

variable {id body : Text}

theorem captured?_capture_of_forall {prior : Text} (hmem : id ∈ (all prior).map (·.1))
    (hsame : ∀ region ∈ all prior, region.1 = id → region.2 = body) :
    (empty.capture prior).1.captured? id = some body := by
  rw [captured?_empty_capture]
  cases hget : Entries.get? id (all prior) with
  | none => exact absurd hmem (Entries.get?_eq_none_iff.1 hget)
  | some other => exact congrArg some (hsame (id, other) (Entries.mem_of_get? hget) rfl)

theorem Plain.captured?_update (h : code.Plain) (hsnippets : code.snippets.isEmpty = true)
    (hmem : id ∈ (all t).map (·.1)) (hcaptured : code.captured? id = some body) :
    (empty.capture (code.update t)).1.captured? id = some body := by
  have hall : all (code.update t) = _ := h.all_update hsnippets
  apply captured?_capture_of_forall
  · rw [hall, List.map_map]
    exact hmem
  · rw [hall, List.forall_mem_map]
    rintro region - rfl
    unfold CustomCode.bodyFor
    rw [hcaptured, Option.getD_some]

/-! ## Both together -/

/-- Without snippets, and with captured bodies that hold no marker: whatever the text, it falls into
pieces, an update puts the captured bodies into them and leaves everything else as it stands, and
what it leaves falls into these pieces again. So it leaves the ids of the regions as they are, gives
each captured id its body, and has nothing to do the second time; and every captured body whose
region occurs is captured again from what it leaves. -/
theorem update_stable (code : CustomCode) (t : Text) (hsnippets : code.snippets.isEmpty = true)
    (hplain : ∀ id body, code.captured? id = some body → Keyless body) :
    textOf (pieces t) = t ∧
      code.update t = textOf ((pieces t).map (Piece.refill fun id body =>
        (code.captured? id).getD body)) ∧
      pieces (code.update t) = (pieces t).map (Piece.refill fun id body =>
        (code.captured? id).getD body) ∧
      all (code.update t) = (all t).map (fun region =>
        (region.1, (code.captured? region.1).getD region.2)) ∧
      code.update (code.update t) = code.update t ∧
      ∀ region ∈ all t, ∀ body, code.captured? region.1 = some body →
        (empty.capture (code.update t)).1.captured? region.1 = some body := by
  have h : code.Plain := hplain
  refine ⟨flatMap_text_pieces t, update_eq hsnippets t, h.pieces_update hsnippets,
    h.all_update hsnippets, h.update_update hsnippets, ?_⟩
  intro region hregion body hcaptured
  exact h.captured?_update hsnippets (List.mem_map_of_mem hregion) hcaptured

/-- A marker that nothing closes, a region to fill with the front of a closing marker, and a region
of its own that holds a marker. -/
def tornText : Text :=
  opening.write "lost" ++ (Piece.region "tools" "a();").text ++
    (Piece.region "own" (opening.write "tools")).text

def tornCode : CustomCode := (empty.capture (Piece.region "tools" "/***[/").text).1

theorem update_stable_tornText :
    all (tornCode.update tornText) =
        [("tools".toList, "/***[/".toList), ("own".toList, opening.write "tools")] ∧
      tornCode.update (tornCode.update tornText) = tornCode.update tornText ∧
      (empty.capture (tornCode.update tornText)).1.captured? "tools" = some "/***[/".toList := by
  have hsnippets : tornCode.snippets.isEmpty = true := by
    rw [tornCode, snippets_capture]
    rfl
  have hplain : ∀ id body, tornCode.captured? id = some body → Keyless body := by
    have hkeyless : ∀ region ∈ all (Piece.region "tools" "/***[/").text, Keyless region.2 := by
      decide +kernel
    exact fun id body hcaptured => hkeyless (id, body) (mem_of_captured? hcaptured)
  have htools : tornCode.captured? "tools" = some "/***[/".toList := by decide +kernel
  obtain ⟨-, -, -, hall, hsame, hagain⟩ := update_stable tornCode tornText hsnippets hplain
  refine ⟨?_, hsame, ?_⟩
  · rw [hall]
    decide +kernel
  · exact hagain ("tools".toList, "a();".toList) (by decide +kernel) _ htools

end ViewBuilder.CustomCode
