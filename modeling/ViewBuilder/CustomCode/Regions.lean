import ViewBuilder.CustomCode.Marks

/-!
# Regions

A region is what stands between an opening marker and the next closing marker of the same id. A
text is cut from left to right: the cut goes on behind a region, or behind an opening marker that
nothing closes. Putting the pieces back together gives the text again.
-/

namespace ViewBuilder.Region

open Text

/-- The opening marker, `/***[REGION=id]***/`. -/
def opening : MarkShape := ⟨"/***[REGION=", "]***/", by decide⟩

/-- The closing marker, `/***[/REGION=id]***/`. -/
def closing : MarkShape := ⟨"/***[/REGION=", "]***/", by decide⟩

/-- A piece of a text: text without a marker that opens a region, an opening marker that nothing
closes, or a region. -/
inductive Piece where
  | plain (t : Text)
  | unclosed (id : Text)
  | region (id body : Text)
deriving DecidableEq

def Piece.text : Piece → Text
  | .plain t => t
  | .unclosed id => opening.write id
  | .region id body => opening.write id ++ body ++ closing.write id

def pieces (t : Text) : List Piece :=
  match _found : opening.find? t with
  | none => [.plain t]
  | some (before, id, behind) =>
    match _closed : cut? (closing.write id) behind with
    | some (body, rest) => .plain before :: .region id body :: pieces rest
    | none => .plain before :: .unclosed id :: pieces behind
termination_by t.length
decreasing_by
  · have := MarkShape.length_lt_of_find? ‹_›
    have := length_of_cut? ‹_›
    omega
  · exact MarkShape.length_lt_of_find? ‹_›

theorem flatMap_text_pieces (t : Text) : (pieces t).flatMap Piece.text = t := by
  fun_induction pieces t with
  | case1 => simp [Piece.text]
  | case2 t before id behind found body rest closed ih =>
    rw [(MarkShape.eq_of_find? found).1, eq_of_cut? closed]
    simp [Piece.text, ih]
  | case3 t before id behind found closed ih =>
    rw [(MarkShape.eq_of_find? found).1]
    simp [Piece.text, ih]

def Piece.region? : Piece → Option (Text × Text)
  | .region id body => some (id, body)
  | _ => none

/-- The ids and bodies of the regions of a text, in order. -/
def all (t : Text) : List (Text × Text) := (pieces t).filterMap Piece.region?

end ViewBuilder.Region
