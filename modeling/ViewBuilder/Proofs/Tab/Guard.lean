import ViewBuilder.Proofs.Tab.Markup

/-!
# Guarded tabs

A tab that is shown to permitted users only is the tab that all users see, one level deeper and
between two lines that test the permission. This holds for a body in the standard scaffold and for
one that brings its own.
-/

namespace ViewBuilder

open Text Markup

/-! ## One level deeper -/

namespace Markup

/-- Puts one more tab behind each line break. -/
def deeper (t : Text) : Text := t.flatMap fun c => if c = '\n' then ['\n', '\t'] else [c]

variable {t u line : Text}

theorem deeper_append (t u : Text) : deeper (t ++ u) = deeper t ++ deeper u := List.flatMap_append

theorem deeper_cons_break (t : Text) : deeper ('\n' :: t) = '\n' :: '\t' :: deeper t := rfl

theorem deeper_eq_self (h : '\n' ∉ t) : deeper t = t := by
  induction t with
  | nil => rfl
  | cons c t ih =>
    rw [List.mem_cons, not_or] at h
    have hc : deeper [c] = [c] := by simp [deeper, Ne.symm h.1]
    rw [← List.singleton_append, deeper_append, hc, ih h.2]

/-- A line with its break and its tabs before it. -/
theorem deeper_line (level : Nat) (h : '\n' ∉ line) :
    deeper ('\n' :: (indent level ++ line)) = '\n' :: (indent (level + 1) ++ line) := by
  have hindent : '\n' ∉ indent level := not_mem_indent level (by decide)
  rw [deeper_cons_break, deeper_append, deeper_eq_self hindent, deeper_eq_self h]
  rfl

theorem break_not_mem_lines (h : line ∈ lines t) : '\n' ∉ line := by
  obtain ⟨piece, hpiece, rfl⟩ := List.mem_map.1 h
  intro hbreak
  have hmem : '\n' ∈ piece := by
    unfold dropReturn at hbreak
    split at hbreak
    · exact List.dropLast_subset _ hbreak
    · exact hbreak
  simpa using (mem_of_mem_splitWhere hpiece hmem).2

theorem deeper_indentLines (level : Nat) (content : Text) :
    deeper (indentLines (indent level) content) = indentLines (indent (level + 1)) content := by
  have hlines : ∀ line ∈ lines content, '\n' ∉ line := fun _ => break_not_mem_lines
  unfold indentLines
  generalize lines content = rest at hlines
  induction rest with
  | nil => rfl
  | cons line rest ih =>
    rw [List.forall_mem_cons] at hlines
    rw [List.flatMap_cons, List.flatMap_cons, deeper_append, ih hlines.2]
    congr 1
    exact deeper_line level hlines.1

end Markup

/-! ## The markup of a tab -/

namespace TabMarkup

variable {view code lang t : Text}

theorem line_eq (base level : Nat) (t : Text) :
    line (indent base) level t = '\n' :: (indent (base + level) ++ t) := by
  rw [line, List.cons_append, List.cons_append, indent_append]

theorem deeper_line (base level : Nat) (h : '\n' ∉ t) :
    deeper (line (indent base) level t) = line (indent (base + 1)) level t := by
  rw [line_eq, line_eq, Markup.deeper_line _ h, Nat.add_right_comm]

theorem break_not_mem_openingCall (hview : '\n' ∉ view) (hcode : '\n' ∉ code)
    (hlang : '\n' ∉ lang) : '\n' ∉ openingCall view code lang := by
  unfold openingCall
  simp only [List.mem_append, not_or]
  exact ⟨⟨⟨⟨⟨⟨by decide, hview⟩, by decide⟩, hcode⟩, by decide⟩, hlang⟩, by decide⟩

theorem deeper_scaffold (body : Text) (level : Nat) (h : '\n' ∉ openingCall view code lang) :
    deeper (scaffold view code lang body (indent level)) =
      scaffold view code lang body (indent (level + 1)) := by
  unfold scaffold
  simp only [deeper_append]
  rw [deeper_line level 1 h, deeper_line level 2 (by decide), deeper_line level 3 (by decide),
    deeper_line level 3 (by decide), deeper_line level 2 (by decide),
    deeper_line level 1 (by decide), indent_append, indent_append, deeper_indentLines,
    Nat.add_right_comm]

theorem deeper_wrap (body : Text) (level : Nat) (h : '\n' ∉ openingCall view code lang) :
    deeper (wrap view code lang body (indent level)) =
      wrap view code lang body (indent (level + 1)) := by
  unfold wrap
  split
  · rw [indent_append, indent_append, deeper_indentLines]
  · exact deeper_scaffold body level h

/-- The name of the permission stands between the quotes of the first line. -/
theorem guard_eq (view code html : Text) :
    guard view code html = "\n\t<?php if ($this->canDo->get('".toList ++
      (view ++ "." ++ code ++ ".viewtab") ++ "')) : ?>" ++ html ++ "\n\t<?php endif; ?>" := by
  unfold guard guardOpening guardClosing line
  simp only [List.append_assoc, List.cons_append]
  rfl

end TabMarkup

/-! ## Compiled tabs -/

namespace TabContext

open Identifier

variable {context : TabContext}

theorem break_not_mem_langKey (hconfig : '\n' ∉ context.config.langPrefix) (name : Text) :
    '\n' ∉ context.langKey name := by
  have hlabel : ∀ label, '\n' ∉ ofLabel .upper label := not_mem_ofLabel (by decide) .upper
  unfold langKey
  simp only [List.mem_append, not_or]
  exact ⟨⟨⟨⟨hconfig, by decide⟩, hlabel _⟩, by decide⟩, hlabel _⟩

/-- The same tab with a permission and without one: the names are the same, and the markup with one
is that without one, a tab deeper at each line break, between the lines of the test. -/
theorem compileTab_guarded (context : TabContext) (raw : RawTab)
    (hconfig : '\n' ∉ context.config.langPrefix) (hview : '\n' ∉ context.view) :
    let guarded := (context.compileTab { raw with guarded := true }).tab
    let plain := (context.compileTab { raw with guarded := false }).tab
    guarded.view = plain.view ∧ guarded.name = plain.name ∧ guarded.code = plain.code ∧
      guarded.lang = plain.lang ∧
      guarded.html =
        "\n\t<?php if ($this->canDo->get('".toList ++
          (context.view ++ "." ++ plain.code ++ ".viewtab") ++ "')) : ?>" ++ deeper plain.html ++
          "\n\t<?php endif; ?>" := by
  intro guarded plain
  have hopening : '\n' ∉ TabMarkup.openingCall context.view plain.code plain.lang :=
    TabMarkup.break_not_mem_openingCall hview (not_mem_ofLabel (by decide) .lower (tabName raw))
      (break_not_mem_langKey hconfig (tabName raw))
  have hplain : plain.html =
      TabMarkup.wrap context.view plain.code plain.lang (context.body raw) (indent 0) := rfl
  have hguarded : guarded.html = TabMarkup.guard context.view plain.code
      (TabMarkup.wrap context.view plain.code plain.lang (context.body raw) (indent 1)) := rfl
  refine ⟨rfl, rfl, rfl, rfl, ?_⟩
  rw [hguarded, hplain, TabMarkup.deeper_wrap _ 0 hopening, TabMarkup.guard_eq]

/-- A tab with two lines, the first of them ended by two characters. -/
def twoLines : RawTab where
  name := some "Main"
  html := "a();\r\nb();"
  guarded := false

def look : TabContext where
  config := { langPrefix := "COM_X" }
  placeholders := .empty
  customCode := .empty
  view := "look"

theorem compileTab_guarded_twoLines :
    '\n' ∉ look.config.langPrefix ∧ '\n' ∉ look.view ∧
      (look.compileTab { twoLines with guarded := true }).tab.html =
        "\n\t<?php if ($this->canDo->get('look.main.viewtab')) : ?>".toList ++
          deeper (look.compileTab twoLines).tab.html ++ "\n\t<?php endif; ?>" := by
  have hconfig : '\n' ∉ look.config.langPrefix := by decide
  have hview : '\n' ∉ look.view := by decide
  have hcode : (look.compileTab twoLines).tab.code = "main" := by decide +kernel
  obtain ⟨-, -, -, -, hhtml⟩ := compileTab_guarded look twoLines hconfig hview
  refine ⟨hconfig, hview, hhtml.trans ?_⟩
  rw [show { twoLines with guarded := false } = twoLines from rfl, hcode]
  rfl

end TabContext

end ViewBuilder
