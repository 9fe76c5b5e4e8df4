import ViewBuilder.Target

/-!
# Registry paths

A path is a list of segments, none of them empty. A segment may hold dots, so the dotted form of
a path does not always say where its segments end.
-/

namespace ViewBuilder

structure RegistryPath where
  segments : List Text
  ne_nil : segments ≠ []
  segment_ne_nil : ∀ segment ∈ segments, segment ≠ []
deriving DecidableEq

namespace RegistryPath

/-! ## Paths from segments -/

/-- Why a list of segments is no path. -/
inductive Fault where
  | noSegments
  | emptySegment (index : Nat)
deriving DecidableEq

def Fault.reason : Fault → Text
  | .noSegments => "path has no segments"
  | .emptySegment index => "segment " ++ Text.ofNat index ++ " is empty"

def dotted (segments : List Text) : Text := Text.join "." segments

def failure (segments : List Text) (fault : Fault) : Failure :=
  .invalidPath (dotted segments) fault.reason

def ofSegments (segments : List Text) : Except Failure RegistryPath :=
  if ne : segments = [] then .error (failure segments .noSegments)
  else
    match found : segments.findIdx? fun segment => segment = [] with
    | some index => .error (failure segments (.emptySegment index))
    | none =>
      .ok ⟨segments, ne, fun segment h => by
        simpa using List.findIdx?_eq_none_iff.1 found segment h⟩

theorem segments_of_ofSegments {segments : List Text} {path : RegistryPath}
    (h : ofSegments segments = .ok path) : path.segments = segments := by
  unfold ofSegments at h
  split at h
  · cases h
  · split at h
    · cases h
    · cases h; rfl

theorem ofSegments_eq_ok {segments : List Text} (ne_nil : segments ≠ [])
    (segment_ne_nil : ∀ segment ∈ segments, segment ≠ []) :
    ofSegments segments = .ok ⟨segments, ne_nil, segment_ne_nil⟩ := by
  unfold ofSegments
  rw [dif_neg ne_nil]
  split
  · rename_i index h
    rw [List.findIdx?_eq_some_iff_getElem] at h
    obtain ⟨hi, he, -⟩ := h
    exact absurd (by simpa using he) (segment_ne_nil _ (List.getElem_mem hi))
  · rfl

theorem exists_fault_of_ofSegments {segments : List Text} {f : Failure}
    (h : ofSegments segments = .error f) : ∃ fault, f = failure segments fault := by
  unfold ofSegments at h
  split at h
  · exact ⟨_, (Except.error.inj h).symm⟩
  · split at h
    · exact ⟨_, (Except.error.inj h).symm⟩
    · cases h

/-- Cuts a dotted text into segments. -/
def parse (t : Text) : Except Failure RegistryPath := ofSegments (Text.splitWhere (· = '.') t)

def text (path : RegistryPath) : Text := dotted path.segments

def join (path : RegistryPath) (segment : Text) : Except Failure RegistryPath :=
  ofSegments (path.segments ++ [segment])

/-! ## Where things are stored -/

def root : Text := "builder"

/-- The compiled tabs of a view. -/
def customTabs (view : Text) : Except Failure RegistryPath :=
  ofSegments [root, "custom_tabs", view]

/-- A template, which belongs to a view. -/
def templateData (target : BuildTarget) (view name : Text) : Except Failure RegistryPath :=
  ofSegments [root, "template_data", target.name, view, name]

/-- A layout, which all views share. -/
def layoutData (target : BuildTarget) (name : Text) : Except Failure RegistryPath :=
  ofSegments [root, "layout_data", target.name, name]

end RegistryPath

end ViewBuilder
