import ViewBuilder.Proofs.CustomCode.Capture
import ViewBuilder.Proofs.Markup.Indent
import ViewBuilder.Proofs.Text.Identifier
import ViewBuilder.Tab.Compile

/-!
# The regions of a compiled tab

The markup around a tab body opens no region of its own, so the regions of a compiled tab are those
of its body, indented.
-/

namespace ViewBuilder

open Text Markup Region

/-! ## Frames -/

/-- What stands around an indented block and neither opens nor closes a region with it. -/
structure Frame where
  pre : Text
  level : Nat
  post : Text
  not_opens : ¬ Opens pre
  post_cases : post = [] ∨ ∃ rest, post = '\n' :: rest
  no_key : 'R' ∉ post

namespace Frame

/-- A block is indented by one level at least. -/
def lead (frame : Frame) : Text := indent (frame.level + 1)

def around (frame : Frame) (block : Text) : Text :=
  frame.pre ++ '\n' :: (frame.lead ++ reindent frame.lead (trim block)) ++ frame.post

theorem all_around (frame : Frame) (block : Text) :
    all (frame.around block) =
      (all block).map fun region => (region.1, reindent frame.lead region.2) := by
  have hfront : all (frame.pre ++ '\n' :: (frame.lead ++ reindent frame.lead (trim block))) =
      all (reindent frame.lead (trim block)) := by
    rw [all_behind frame.not_opens (foreign_of_isBlank (by decide)), all_behind_blank]
    intro c hc
    rw [List.eq_of_mem_replicate hc]
    decide
  have hslash : '/' ∉ frame.lead := not_mem_indent _ (by decide)
  rw [← all_trim block, ← all_reindent hslash, ← hfront, around]
  rcases frame.post_cases with hnil | ⟨rest, hrest⟩
  · rw [hnil, List.append_nil]
  · have hkey := frame.no_key
    rw [hrest] at hkey ⊢
    exact all_before (foreign_of_isBlank (by decide))
      (keyless_of_not_mem (List.not_mem_of_not_mem_cons hkey))

end Frame

/-! ## The markup -/

namespace TabMarkup

variable {view code lang : Text}

/-- A name set off by quotes opens no region that it does not open by itself. -/
theorem not_opens_quoted {name front back rest : Text} (hname : ¬ Opens name)
    (hfront : '/' ∉ front ∧ '\'' ∈ front) (hback : '/' ∉ back ∧ '\'' ∈ back) (hrest : ¬ Opens rest) :
    ¬ Opens (front ++ (name ++ (back ++ rest))) := by
  have hquote : Foreign '\'' := foreign_of (by decide) (by decide)
  have hbehind := not_opens_append hname hback.1 ⟨'\'', hback.2, hquote⟩ hrest
  rw [← List.nil_append (front ++ (name ++ (back ++ rest)))]
  exact not_opens_append not_opens_nil hfront.1 ⟨'\'', hfront.2, hquote⟩ hbehind

theorem not_opens_openingCall (hview : ¬ Opens view) (hcode : '/' ∉ code) (hlang : ¬ Opens lang) :
    ¬ Opens (openingCall view code lang) := by
  have hsplit : openingCall view code lang = "<?php echo JHtml::_('bootstrap.addTab', '".toList ++
      (view ++ (("Tab', '".toList ++ code ++ "', JText::_('".toList) ++
        (lang ++ "', true)); ?>".toList))) := by
    unfold openingCall
    simp only [List.append_assoc]
  have hend : ¬ Opens (lang ++ "', true)); ?>".toList) := by
    rwa [opens_append_iff (by decide)]
  rw [hsplit]
  refine not_opens_quoted hview (by decide) ⟨?_, ?_⟩ hend
  · simp only [List.mem_append, not_or]
    exact ⟨⟨by decide, hcode⟩, by decide⟩
  · simp only [List.mem_append]
    exact .inr (by decide)

theorem not_mem_line {c : Char} {t : Text} (base level : Nat) (hbreak : c ≠ '\n') (htab : c ≠ '\t')
    (ht : c ∉ t) : c ∉ line (indent base) level t := by
  unfold line
  simp only [List.cons_append, List.mem_cons, List.mem_append, not_or]
  exact ⟨hbreak, ⟨not_mem_indent base htab, not_mem_indent level htab⟩, ht⟩

theorem not_opens_line {t : Text} (base level : Nat) (h : ¬ Opens t) :
    ¬ Opens (line (indent base) level t) := by
  have hslash : '/' ∉ line (indent base) level [] :=
    not_mem_line base level (by decide) (by decide) List.not_mem_nil
  have hbreak : '\n' ∈ line (indent base) level [] := List.mem_cons_self
  have hsplit : line (indent base) level t = [] ++ (line (indent base) level [] ++ t) := by
    simp [line]
  rw [hsplit]
  exact not_opens_append not_opens_nil hslash ⟨'\n', hbreak, foreign_of_isBlank (by decide)⟩ h

def scaffoldFrame (level : Nat) (hopening : ¬ Opens (openingCall view code lang)) : Frame where
  pre := line (indent level) 1 (openingCall view code lang) ++
    line (indent level) 2 "<div class=\"row-fluid form-horizontal-desktop\">" ++
    line (indent level) 3 "<div class=\"span12\">"
  level := level + 3
  post := line (indent level) 3 "</div>" ++ line (indent level) 2 "</div>" ++
    line (indent level) 1 "<?php echo JHtml::_('bootstrap.endTab'); ?>"
  not_opens := by
    rw [opens_append_iff, opens_append_iff]
    · exact not_opens_line level 1 hopening
    · exact not_mem_line level 2 (by decide) (by decide) (by decide)
    · exact not_mem_line level 3 (by decide) (by decide) (by decide)
  post_cases := .inr ⟨_, rfl⟩
  no_key := by
    simp only [List.mem_append, not_or]
    refine ⟨⟨?_, ?_⟩, ?_⟩
    · exact not_mem_line level 3 (by decide) (by decide) (by decide)
    · exact not_mem_line level 2 (by decide) (by decide) (by decide)
    · exact not_mem_line level 1 (by decide) (by decide) (by decide)

/-- The test of a permission around what a frame is around. -/
def guardFrame (frame : Frame) (hview : ¬ Opens view) (hcode : '/' ∉ code) : Frame where
  pre := guardOpening view code ++ frame.pre
  level := frame.level
  post := frame.post ++ guardClosing
  not_opens := by
    have hsplit : guardOpening view code ++ frame.pre =
        line (indent 0) 1 ("<?php if ($this->canDo->get('".toList ++
          (view ++ ((".".toList ++ code ++ ".viewtab')) : ?>".toList) ++ frame.pre))) := by
      unfold guardOpening line
      simp only [List.append_assoc, List.cons_append]
      rfl
    rw [hsplit]
    refine not_opens_line 0 1 (not_opens_quoted hview (by decide) ⟨?_, ?_⟩ frame.not_opens)
    · simp only [List.mem_append, not_or]
      exact ⟨⟨by decide, hcode⟩, by decide⟩
    · simp only [List.mem_append]
      exact .inr (by decide)
  post_cases := by
    rcases frame.post_cases with hnil | ⟨rest, hrest⟩
    · rw [hnil]
      exact .inr ⟨_, rfl⟩
    · rw [hrest]
      exact .inr ⟨_, rfl⟩
  no_key := by
    simp only [List.mem_append, not_or]
    exact ⟨frame.no_key, by decide⟩

theorem exists_frame_wrap (body : Text) (level : Nat) (hview : ¬ Opens view) (hcode : '/' ∉ code)
    (hlang : ¬ Opens lang) :
    ∃ frame : Frame, wrap view code lang body (indent level) = frame.around body := by
  rw [wrap]
  split
  · refine ⟨⟨[], level, [], not_opens_nil, .inl rfl, List.not_mem_nil⟩, ?_⟩
    rw [indentLines_eq, indent_append, Frame.around, Frame.lead]
    simp
  · refine ⟨scaffoldFrame level (not_opens_openingCall hview hcode hlang), ?_⟩
    rw [scaffold, indentLines_eq, indent_append, Frame.around, Frame.lead]
    simp only [scaffoldFrame, List.append_assoc, List.cons_append]

theorem guard_around (frame : Frame) (hview : ¬ Opens view) (hcode : '/' ∉ code) (block : Text) :
    guard view code (frame.around block) = (guardFrame frame hview hcode).around block := by
  rw [guard, Frame.around, Frame.around, Frame.lead, Frame.lead]
  simp only [guardFrame, List.append_assoc, List.cons_append]

end TabMarkup

/-! ## Compiled tabs -/

namespace TabContext

open Identifier

theorem not_opens_langKey {context : TabContext} (hconfig : ¬ Opens context.config.langPrefix)
    (name : Text) : ¬ Opens (context.langKey name) := by
  unfold langKey
  rw [opens_append_iff, opens_append_iff, opens_append_iff, opens_append_iff]
  · exact hconfig
  · decide
  · exact not_mem_ofLabel (by decide) .upper context.view
  · decide
  · exact not_mem_ofLabel (by decide) .upper name

theorem exists_frame_html {context : TabContext} (hview : ¬ Opens context.view)
    (hconfig : ¬ Opens context.config.langPrefix) (raw : RawTab) :
    ∃ frame : Frame, context.html raw = frame.around (context.body raw) := by
  have hcode : '/' ∉ ofLabel .lower (tabName raw) := not_mem_ofLabel (by decide) _ _
  have hlang := not_opens_langKey hconfig (tabName raw)
  unfold html
  dsimp only
  split
  · obtain ⟨frame, hframe⟩ := TabMarkup.exists_frame_wrap (context.body raw) 1 hview hcode hlang
    rw [hframe, TabMarkup.guard_around frame hview hcode]
    exact ⟨_, rfl⟩
  · exact TabMarkup.exists_frame_wrap (context.body raw) 0 hview hcode hlang

end TabContext

end ViewBuilder
