import ViewBuilder.Proofs.Text.Split
import ViewBuilder.Registry.Path

/-!
# The dotted form of a path

A dotted text is cut at each of its dots, so it is the dotted form of what it parses to, and it does
not parse where a dot has no segment on one side. A path is not always what its dotted form parses
to, for its segments may hold dots themselves.
-/

namespace ViewBuilder.RegistryPath

open Text

variable {t : Text} {segments : List Text} {path : RegistryPath} {f : Failure}

theorem ofSegments_eq_error_iff :
    ofSegments segments = .error f ↔
      (segments = [] ∧ f = failure segments .noSegments) ∨
        ∃ index, segments.findIdx? (fun segment => segment = []) = some index ∧
          f = failure segments (.emptySegment index) := by
  unfold ofSegments
  split
  · rename_i hnil
    simp [hnil, eq_comm]
  · rename_i hne
    split
    · rename_i index hindex
      simp [hne, hindex, eq_comm]
    · rename_i hnone
      simp [hne, hnone]

theorem dotted_splitWhere (t : Text) : dotted (splitWhere (· = '.') t) = t := join_splitWhere '.' t

/-! ## Parsing -/

theorem parse_eq_ok_iff :
    parse t = .ok path ↔ path.text = t ∧ ∀ segment ∈ path.segments, '.' ∉ segment := by
  constructor
  · intro h
    have hsegments : path.segments = splitWhere (· = '.') t := segments_of_ofSegments h
    refine ⟨?_, fun segment hsegment hdot => ?_⟩
    · rw [text, hsegments, dotted_splitWhere]
    · rw [hsegments] at hsegment
      simpa using (mem_of_mem_splitWhere hsegment hdot).2
  · rintro ⟨rfl, hdots⟩
    have hsplit : splitWhere (· = '.') path.text = path.segments :=
      splitWhere_join path.ne_nil hdots
    rw [parse, hsplit, ofSegments_eq_ok path.ne_nil path.segment_ne_nil]

/-- The segments in front of the first empty one say its index. A text always has segments, so this
is the only fault. -/
theorem parse_eq_error_iff :
    parse t = .error f ↔
      ∃ (front : List Text) (behind : Text), t = front.flatMap (· ++ ['.']) ++ behind ∧
        (∀ segment ∈ front, segment ≠ [] ∧ '.' ∉ segment) ∧ (behind = [] ∨ ['.'] <+: behind) ∧
        f = .invalidPath t (Fault.emptySegment front.length).reason := by
  have hfailure : ∀ index, failure (splitWhere (· = '.') t) (.emptySegment index) =
      .invalidPath t (Fault.emptySegment index).reason := by
    intro index
    rw [failure, dotted_splitWhere]
  rw [parse, ofSegments_eq_error_iff]
  simp only [splitWhere_ne_nil, false_and, false_or, findIdx?_splitWhere_eq_some_iff, hfailure]
  constructor
  · rintro ⟨_, ⟨front, behind, ht, rfl, hfront, hbehind⟩, hf⟩
    exact ⟨front, behind, ht, hfront, hbehind, hf⟩
  · rintro ⟨front, behind, ht, hfront, hbehind, hf⟩
    exact ⟨_, ⟨front, behind, ht, rfl, hfront, hbehind⟩, hf⟩

theorem exists_parse_eq_error_iff :
    (∃ f, parse t = .error f) ↔ [] ∈ splitWhere (· = '.') t := by
  rw [nil_mem_iff_exists_findIdx?]
  constructor
  · rintro ⟨f, hf⟩
    rcases ofSegments_eq_error_iff.1 hf with ⟨hnil, -⟩ | ⟨index, hindex, -⟩
    · exact absurd hnil (splitWhere_ne_nil _ t)
    · exact ⟨index, hindex⟩
  · rintro ⟨index, hindex⟩
    exact ⟨_, ofSegments_eq_error_iff.2 (.inr ⟨index, hindex, rfl⟩)⟩

/-! ## Both directions -/

/-- A text parses to the one path with this dotted form that has no dot in a segment, if there is
one. It does not parse exactly if it is empty, begins or ends with a dot, or has two dots side by
side; the failure then names the text and the first empty segment by the number of segments in front
of it, each with the dot behind it. So a path is what its dotted form parses to exactly if none of
its segments has a dot. -/
theorem parse_iff_dotted (t : Text) :
    (∀ path, parse t = .ok path ↔ path.text = t ∧ ∀ segment ∈ path.segments, '.' ∉ segment) ∧
    ((∃ f, parse t = .error f) ↔
      t = [] ∨ ".".toList <+: t ∨ ".".toList <:+ t ∨ "..".toList <:+: t) ∧
    (∀ f, parse t = .error f ↔
      ∃ (front : List Text) (behind : Text), t = front.flatMap (· ++ ".".toList) ++ behind ∧
        (∀ segment ∈ front, segment ≠ [] ∧ '.' ∉ segment) ∧
        (behind = [] ∨ ".".toList <+: behind) ∧
        f = .invalidPath t ("segment " ++ ofNat front.length ++ " is empty")) ∧
    ∀ path : RegistryPath,
      parse path.text = .ok path ↔ ∀ segment ∈ path.segments, '.' ∉ segment := by
  refine ⟨fun path => parse_eq_ok_iff, ?_, fun f => parse_eq_error_iff, fun path => ?_⟩
  · rw [exists_parse_eq_error_iff, nil_mem_splitWhere_iff]
    rfl
  · rw [parse_eq_ok_iff]
    exact and_iff_right rfl

/-- The second segment is the first empty one. -/
example : parse "items..tabs." = .error (.invalidPath "items..tabs." "segment 1 is empty") := by
  decide +kernel

end ViewBuilder.RegistryPath
