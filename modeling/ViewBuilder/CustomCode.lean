import ViewBuilder.CustomCode.Regions
import ViewBuilder.Table

/-!
# Custom code

Developers edit generated files by hand inside marked regions. Before a run the regions of the
earlier output are captured; afterwards the captured bodies are put back where the same regions
appear again. Snippets that are registered for a run stand in for inline references
`[CUSTOMCODE=id]`.
-/

namespace ViewBuilder

structure CustomCode where
  captured : Table Text
  snippets : Table Text

namespace CustomCode

open Text

def empty : CustomCode := ⟨.empty, .empty⟩

/-! ## Filling -/

/-- Records a body unless its id has one already, and counts those that are new. -/
def captureOne (state : CustomCode × Nat) (region : Text × Text) : CustomCode × Nat :=
  let (code, count) := state
  if code.captured.contains region.1 then (code, count)
  else ({ code with captured := code.captured.insert region.1 region.2 }, count + 1)

/-- Records the bodies of all regions of an earlier output, and says how many are new. The first
body of an id stays. -/
def capture (code : CustomCode) (prior : Text) : CustomCode × Nat :=
  (Region.all prior).foldl captureOne (code, 0)

def register (code : CustomCode) (id snippet : Text) : CustomCode :=
  { code with snippets := code.snippets.insert id snippet }

def captured? (code : CustomCode) (id : Text) : Option Text := code.captured.get? id

/-! ## Inline references -/

def reference : MarkShape := ⟨"[CUSTOMCODE=", "]", by decide⟩

/-- Replaces the references whose id has a snippet, in one pass from left to right. -/
def replaceReferences (snippet? : Text → Option Text) (t : Text) : Text :=
  match _found : reference.find? t with
  | none => t
  | some (before, id, rest) =>
    before ++ (snippet? id).getD (reference.write id) ++ replaceReferences snippet? rest
termination_by t.length
decreasing_by exact MarkShape.length_lt_of_find? ‹_›

/-- Expands the inline references, if there is anything to expand. -/
def expand (code : CustomCode) (t : Text) : Text :=
  if code.snippets.isEmpty || !contains reference.lead t then t
  else replaceReferences code.snippets.get? t

/-! ## Regions -/

def reinstatePiece (captured? : Text → Option Text) : Region.Piece → Region.Piece
  | .region id body => .region id ((captured? id).getD body)
  | piece => piece

/-- Puts the captured bodies back, if there are any. -/
def reinstate (code : CustomCode) (t : Text) : Text :=
  if code.captured.isEmpty then t
  else ((Region.pieces t).map (reinstatePiece code.captured.get?)).flatMap Region.Piece.text

def update (code : CustomCode) (t : Text) : Text := code.reinstate (code.expand t)

end CustomCode

end ViewBuilder
