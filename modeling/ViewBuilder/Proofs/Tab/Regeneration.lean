import ViewBuilder.Proofs.Tab.Markup

/-!
# Regeneration

A tab is compiled again with the regions of its own output captured. The bodies are put back as
they stand in the output, where they are indented already, and are indented once more with the
rest of the tab. So a body on one line stays, and a body with a line break is changed by each run.
-/

namespace ViewBuilder.TabContext

open Text Markup Region CustomCode

/-- The context of the next run: custom code is captured from what this one compiles. -/
def regenerated (raw : RawTab) (context : TabContext) : TabContext :=
  { context with customCode := (CustomCode.empty.capture (context.compileTab raw).tab.html).1 }

/-- The body before custom code is put into its regions. -/
def template (context : TabContext) (raw : RawTab) : Text := context.placeholders.update raw.html

/-- What a context must be like for its regions to be told apart: one region for each id, and no
marker in what stands in a region. The view and the prefix of the keys stand around the tab, and
that they hold no opening marker is more than its regions need: one there would be passed by as long
as nothing closes it. -/
structure Clear (context : TabContext) (raw : RawTab) : Prop where
  snippets : context.customCode.snippets.isEmpty = true
  ids : ((all (context.template raw)).map (·.1)).Nodup
  bodies : ∀ region ∈ all (context.template raw), Keyless region.2
  captured : ∀ id body, context.customCode.captured? id = some body → Keyless body
  view : ¬ Opens context.view
  langPrefix : ¬ Opens context.config.langPrefix

variable {context : TabContext} {raw : RawTab}

/-! ## The regions of a body -/

theorem Clear.keyless (h : Clear context raw) :
    ∀ region ∈ all (context.template raw),
      Keyless (context.customCode.bodyFor region.1 region.2) := by
  intro region hregion
  unfold bodyFor
  cases hcaptured : context.customCode.captured? region.1 with
  | none => exact h.bodies region hregion
  | some body => exact h.captured region.1 body hcaptured

theorem Clear.all_body (h : Clear context raw) :
    all (context.body raw) = (all (context.template raw)).map fun region =>
      (region.1, context.customCode.bodyFor region.1 region.2) := by
  rw [body, update_eq h.snippets]
  exact all_refill fun region hregion => .inr (h.keyless region hregion)

theorem Clear.all_html (h : Clear context raw) :
    ∃ level, all (context.html raw) = (all (context.body raw)).map fun region =>
      (region.1, reindent (indent (level + 1)) region.2) := by
  obtain ⟨frame, hframe⟩ := exists_frame_html h.view h.langPrefix raw
  exact ⟨frame.level, by rw [hframe, frame.all_around]; rfl⟩

theorem Clear.keyless_html (h : Clear context raw) :
    ∀ region ∈ all (context.html raw), Keyless region.2 := by
  obtain ⟨level, hhtml⟩ := h.all_html
  rw [hhtml, h.all_body, List.map_map, List.forall_mem_map]
  intro region hregion
  exact (h.keyless region hregion).reindent (not_mem_indent (level + 1) (by decide))

theorem Clear.ids_html (h : Clear context raw) :
    (all (context.html raw)).map (·.1) = (all (context.template raw)).map (·.1) := by
  obtain ⟨level, hhtml⟩ := h.all_html
  rw [hhtml, h.all_body, List.map_map, List.map_map]
  rfl

/-! ## The next run -/

theorem Clear.regenerated (h : Clear context raw) : Clear (context.regenerated raw) raw where
  snippets := by
    have hsnippets : (context.regenerated raw).customCode.snippets = CustomCode.empty.snippets :=
      snippets_capture _ _
    rw [hsnippets]
    rfl
  ids := h.ids
  bodies := h.bodies
  captured id body hcaptured := h.keyless_html (id, body) (mem_of_captured? hcaptured)
  view := h.view
  langPrefix := h.langPrefix

theorem Clear.bodyFor_regenerated (h : Clear context raw) {region : Text × Text}
    (hregion : region ∈ all (context.html raw)) (body : Text) :
    (context.regenerated raw).customCode.bodyFor region.1 body = region.2 := by
  have hids := h.ids
  rw [← h.ids_html] at hids
  have hcaptured : (context.regenerated raw).customCode.captured? region.1 = some region.2 :=
    captured?_of_mem_all hids hregion
  rw [bodyFor, hcaptured, Option.getD_some]

/-- The next run puts back what this one printed. -/
theorem Clear.all_body_regenerated (h : Clear context raw) :
    all ((context.regenerated raw).body raw) = all (context.html raw) := by
  have hbodies : ∀ region ∈ all (context.html raw), ∀ body,
      (context.regenerated raw).customCode.bodyFor region.1 body = region.2 :=
    fun _ hregion => h.bodyFor_regenerated hregion
  obtain ⟨level, hhtml⟩ := h.all_html
  rw [h.all_body, List.map_map] at hhtml
  rw [hhtml, List.forall_mem_map] at hbodies
  rw [h.regenerated.all_body, hhtml]
  exact List.map_congr_left fun region hregion =>
    Prod.ext rfl (hbodies region hregion region.2)

theorem html_regenerated_of_body
    (h : (context.regenerated raw).body raw = context.body raw) :
    (context.regenerated raw).html raw = context.html raw := by
  unfold html
  rw [h]
  rfl

theorem Clear.html_regenerated (h : Clear context raw)
    (hline : ∀ region ∈ all (context.body raw), '\n' ∉ region.2) :
    (context.regenerated raw).html raw = context.html raw := by
  apply html_regenerated_of_body
  rw [body, body, update_eq h.regenerated.snippets, update_eq h.snippets]
  congr 1
  apply map_refill_congr
  intro region hregion
  obtain ⟨level, hhtml⟩ := h.all_html
  rw [h.all_body, List.forall_mem_map] at hline
  have hmem : (region.1, context.customCode.bodyFor region.1 region.2) ∈ all (context.html raw) := by
    rw [hhtml, h.all_body, List.map_map]
    refine List.mem_map.2 ⟨region, hregion, ?_⟩
    exact Prod.ext rfl (reindent_eq_self (hline region hregion))
  exact h.bodyFor_regenerated hmem region.2

theorem Clear.break_not_mem (h : Clear context raw)
    (hsame : all ((context.regenerated raw).html raw) = all (context.html raw)) :
    ∀ region ∈ all (context.body raw), '\n' ∉ region.2 := by
  obtain ⟨level, hhtml⟩ := h.all_html
  obtain ⟨next, hnext⟩ := h.regenerated.all_html
  -- What is put back is indented already, and must not change when it is indented again.
  rw [hsame, h.all_body_regenerated] at hnext
  have hfixed := List.map_inj_left.1 (hnext.symm.trans (List.map_id _).symm)
  intro region hregion hbreak
  have hmem : (region.1, reindent (indent (level + 1)) region.2) ∈ all (context.html raw) := by
    rw [hhtml]
    exact List.mem_map_of_mem hregion
  have hself := congrArg Prod.snd (hfixed _ hmem)
  exact reindent_eq_self_iff.1 hself (break_mem_reindent_iff.2 hbreak)

theorem html_iterate (h : (context.regenerated raw).html raw = context.html raw) (runs : Nat) :
    ((regenerated raw)^[runs] context).html raw = context.html raw := by
  have hfixed : regenerated raw (context.regenerated raw) = context.regenerated raw :=
    congrArg (fun html => { context with customCode := (CustomCode.empty.capture html).1 }) h
  cases runs with
  | zero => rfl
  | succ runs => rw [Function.iterate_succ_apply, Function.iterate_fixed hfixed, h]

/-- The output stays exactly when every region body of the tab is on one line, and then it stays
for good. -/
theorem compileTab_regenerated_iff (h : Clear context raw) :
    (((context.regenerated raw).compileTab raw).tab.html = (context.compileTab raw).tab.html ↔
      ∀ region ∈ all (context.body raw), '\n' ∉ region.2) ∧
    (all ((context.regenerated raw).compileTab raw).tab.html =
        all (context.compileTab raw).tab.html ↔
      ∀ region ∈ all (context.body raw), '\n' ∉ region.2) ∧
    ((∀ region ∈ all (context.body raw), '\n' ∉ region.2) → ∀ runs,
      (((regenerated raw)^[runs] context).compileTab raw).tab.html =
        (context.compileTab raw).tab.html) := by
  refine ⟨⟨fun hsame => ?_, h.html_regenerated⟩, ⟨h.break_not_mem, fun hline => ?_⟩, fun hline => ?_⟩
  · exact h.break_not_mem (congrArg all hsame)
  · exact congrArg all (h.html_regenerated hline)
  · exact html_iterate (h.html_regenerated hline)

/-! ## A tool bar -/

/-- A tab that holds nothing but a region. -/
def toolBar (body : Text) : RawTab where
  name := some "Main"
  html := (Piece.region "tools" body).text
  guarded := false

/-- A context with the regions of an earlier output captured. -/
def after (prior : Text) : TabContext where
  config := { langPrefix := "COM_X" }
  placeholders := .empty
  customCode := (CustomCode.empty.capture prior).1
  view := "look"

theorem clear_toolBar {prior body : Text} (hprior : ∀ region ∈ all prior, Keyless region.2)
    (hbody : Keyless body) : Clear (after prior) (toolBar body) := by
  have htemplate : (after prior).template (toolBar body) = (Piece.region "tools" body).text := by
    unfold template Placeholders.update Placeholders.substitute
    split <;> rfl
  have hid : MarkShape.IsId "tools" := ⟨by decide, List.all_eq_true.1 (by decide)⟩
  have hfirst : ¬ Opens ([] ++ ['/']) := not_opens_slash
  have hcut := Cut.region hid hfirst (hbody.not_closing_early hid) (.plain not_opens_nil)
  have htext : [] ++ opening.write "tools" ++ (body ++ closing.write "tools" ++ []) =
      (Piece.region "tools" body).text := by
    simp only [Piece.text, List.nil_append, List.append_nil, List.append_assoc]
  rw [htext] at hcut
  have hregions : all ((after prior).template (toolBar body)) = [("tools".toList, body)] := by
    rw [htemplate, all, pieces_eq_of_cut hcut]
    rfl
  refine ⟨?_, ?_, ?_, ?_, ?_, ?_⟩
  · rw [after, snippets_capture]
    rfl
  · rw [hregions]
    exact List.nodup_singleton _
  · rw [hregions, List.forall_mem_singleton]
    exact hbody
  · exact fun id body hcaptured => hprior (id, body) (mem_of_captured? hcaptured)
  · exact not_opens_of_no_slash (show '/' ∉ "look".toList by decide)
  · exact not_opens_of_no_slash (show '/' ∉ "COM_X".toList by decide)

/-- A context in which the tool bar was edited by hand. -/
def edited : TabContext := after (Piece.region "tools" "b();").text

theorem compileTab_regenerated_toolBar :
    Clear edited (toolBar "a();") ∧
    all (edited.body (toolBar "a();")) = [("tools".toList, "b();".toList)] ∧
    ∀ runs, (((regenerated (toolBar "a();"))^[runs] edited).compileTab (toolBar "a();")).tab.html =
      (edited.compileTab (toolBar "a();")).tab.html := by
  have hclear : Clear edited (toolBar "a();") := clear_toolBar (by decide +kernel) (by decide)
  have hbody : all (edited.body (toolBar "a();")) = [("tools".toList, "b();".toList)] := by
    decide +kernel
  have hline : ∀ region ∈ all (edited.body (toolBar "a();")), '\n' ∉ region.2 := by
    rw [hbody, List.forall_mem_singleton]
    decide
  exact ⟨hclear, hbody, (compileTab_regenerated_iff hclear).2.2 hline⟩

/-- Bodies on several lines are indented again. -/
theorem not_compileTab_regenerated_toolBar :
    Clear (after []) (toolBar "\na();\nb();\n") ∧
    (((after []).regenerated (toolBar "\na();\nb();\n")).compileTab
      (toolBar "\na();\nb();\n")).tab.html ≠
        ((after []).compileTab (toolBar "\na();\nb();\n")).tab.html :=
  ⟨clear_toolBar (by decide +kernel) (by decide), by decide +kernel⟩

end ViewBuilder.TabContext
