import ViewBuilder.Proofs.Reference.Around
import ViewBuilder.Proofs.Tab.Guard

/-!
# The references of a compiled tab

The markup around a tab body ends calls but opens none, as a name of the view that holds no quote
cannot open one either. So a compiled tab has the references of its body, if the body leaves no call
open and no name in it goes over a line break.
-/

namespace ViewBuilder

open Text Markup CallShape

variable {shape : CallShape} {kind : AliasKind} {view code lang t u : Text} {names : List Text}

/-! ## Opening texts -/

namespace CallShape

/-- The opening texts up to their quotes. -/
def fronts : List Text := ["$this->loadTemplate(", "JLayoutHelper::render("]

theorem exists_front (hshape : shape ∈ shapes kind) :
    ∃ front ∈ fronts, ∃ quote ∈ quotes, shape.opening = front ++ [quote] := by
  have htemplate : "$this->loadTemplate(".toList ∈ fronts := List.mem_cons_self
  have hlayout : "JLayoutHelper::render(".toList ∈ fronts :=
    List.mem_cons_of_mem _ List.mem_cons_self
  have hall : ∀ kind, ∀ shape ∈ shapes kind,
      ∃ front ∈ fronts, ∃ quote ∈ quotes, shape.opening = front ++ [quote] :=
    forall_shapes_iff.2
      ⟨⟨_, htemplate, '\'', by decide, rfl⟩, ⟨_, htemplate, '"', by decide, rfl⟩,
        ⟨_, hlayout, '\'', by decide, rfl⟩, ⟨_, hlayout, '"', by decide, rfl⟩⟩
  exact hall kind shape hshape

theorem getLast?_front {front : Text} (hfront : front ∈ fronts) : front.getLast? = some '(' := by
  have hall : ∀ front ∈ fronts, front.getLast? = some '(' := by decide
  exact hall front hfront

/-- An opening text has a bracket before its quote. -/
theorem not_suffix {front piece : Text} (hfront : front ∈ fronts)
    (hpiece : piece.getLast? ≠ some '(') : ¬ front <:+ piece := by
  rintro ⟨before, rfl⟩
  rw [List.getLast?_append, getLast?_front hfront] at hpiece
  exact hpiece rfl

theorem not_opening_of_not_mem (hshape : shape ∈ shapes kind) (ht : '(' ∉ t) :
    ¬ shape.opening <:+: t := by
  obtain ⟨front, hfront, quote, -, hopening⟩ := exists_front hshape
  have hbracket : '(' ∈ shape.opening := by
    rw [hopening]
    exact List.mem_append_left _ (List.mem_of_getLast? (getLast?_front hfront))
  exact fun hinfix => ht (List.IsInfix.subset hinfix hbracket)

def Unquoted (t : Text) : Prop := ∀ quote ∈ quotes, quote ∉ t

instance (t : Text) : Decidable (Unquoted t) := List.decidableBAll (fun quote => quote ∉ t) quotes

theorem Unquoted.append (ht : Unquoted t) (hu : Unquoted u) : Unquoted (t ++ u) := by
  intro quote hquote
  rw [List.mem_append, not_or]
  exact ⟨ht quote hquote, hu quote hquote⟩

/-- Pieces with single quotes between them open no call if none of them ends as the front of an
opening text does. -/
theorem not_opening_join {pieces : List Text} (hshape : shape ∈ shapes kind)
    (hquotes : ∀ piece ∈ pieces, Unquoted piece)
    (hfronts : ∀ front ∈ fronts, ∀ piece ∈ pieces.dropLast, ¬ front <:+ piece) :
    ¬ shape.opening <:+: join ['\''] pieces := by
  obtain ⟨front, hfront, quote, hquote, hopening⟩ := exists_front hshape
  rw [hopening]
  intro hinfix
  have hcases : quote = '\'' ∨ quote = '"' := by simpa [quotes] using hquote
  rcases hcases with rfl | rfl
  · have hall : ∀ front ∈ fronts, '\'' ∉ front := by decide
    obtain ⟨piece, hpiece, hend⟩ := exists_suffix_of_infix_join (hall front hfront)
      (fun piece hpiece => hquotes piece hpiece '\'' hquote) hinfix
    exact hfronts front hfront piece hpiece hend
  · have hquoted := List.IsInfix.subset hinfix (List.mem_append_right front List.mem_cons_self)
    rcases mem_of_mem_join hquoted with hseparator | ⟨piece, hpiece, hmem⟩
    · exact absurd hseparator (by decide)
    · exact hquotes piece hpiece '"' hquote hmem

end CallShape

/-! ## The markup -/

namespace TabMarkup

theorem not_suffix_htmlCall {front : Text} (hfront : front ∈ fronts) :
    ¬ front <:+ "<?php echo JHtml::_(" := by
  have hall : ∀ front ∈ fronts, ¬ front <:+ "<?php echo JHtml::_(".toList := by decide
  exact hall front hfront

theorem openingCall_eq_join (view code lang : Text) :
    openingCall view code lang = join ['\''] ["<?php echo JHtml::_(", "bootstrap.addTab", ", ",
      view ++ "Tab", ", ", code, ", JText::_(", lang, ", true)); ?>"] := by
  have hfirst : "<?php echo JHtml::_('bootstrap.addTab', '".toList =
      join ['\''] ["<?php echo JHtml::_(", "bootstrap.addTab", ", ", []] := by decide
  have hsecond : "Tab', '".toList = join ['\''] ["Tab", ", ", []] := by decide
  have hthird : "', JText::_('".toList = join ['\''] [[], ", JText::_(", []] := by decide
  have hlast : "', true)); ?>".toList = join ['\''] [[], ", true)); ?>"] := by decide
  unfold openingCall
  simp only [hfirst, hsecond, hthird, hlast, join, List.intercalate_cons_cons,
    List.intercalate_singleton, List.append_assoc, List.nil_append, List.append_nil]

theorem guardLine_eq_join (view code : Text) :
    "<?php if ($this->canDo->get('".toList ++ view ++ "." ++ code ++ ".viewtab')) : ?>" =
      join ['\''] ["<?php if ($this->canDo->get(", view ++ "." ++ code ++ ".viewtab",
        ")) : ?>"] := by
  have hfirst : "<?php if ($this->canDo->get('".toList =
      join ['\''] ["<?php if ($this->canDo->get(", []] := by decide
  have hlast : ".viewtab')) : ?>".toList = join ['\''] [".viewtab", ")) : ?>"] := by decide
  simp only [hfirst, hlast, join, List.intercalate_cons_cons, List.intercalate_singleton,
    List.append_assoc, List.append_nil]

/-- The names that a tab writes into quotes: they hold no quote and do not end in a bracket. -/
structure Quotable (view code lang : Text) : Prop where
  view_quote : Unquoted view
  code_quote : Unquoted code
  lang_quote : Unquoted lang
  code_bracket : '(' ∉ code
  lang_bracket : lang.getLast? ≠ some '('

theorem not_opening_openingCall (hshape : shape ∈ shapes kind) (h : Quotable view code lang) :
    ¬ shape.opening <:+: openingCall view code lang := by
  rw [openingCall_eq_join]
  refine not_opening_join hshape ?_ fun front hfront => ?_
  · simp only [List.forall_mem_cons]
    exact ⟨by decide, by decide, by decide, h.view_quote.append (by decide), by decide,
      h.code_quote, by decide, h.lang_quote, by decide, List.forall_mem_nil _⟩
  · have htext : ∀ front ∈ fronts, ¬ front <:+ ", JText::_(".toList := by decide
    have htab : (view ++ "Tab".toList).getLast? ≠ some '(' := by
      rw [List.getLast?_append_of_ne_nil _ (by decide)]
      decide
    simp only [List.dropLast_cons_cons, List.dropLast_singleton, List.forall_mem_cons]
    exact ⟨not_suffix_htmlCall hfront, not_suffix hfront (by decide), not_suffix hfront (by decide),
      not_suffix hfront htab, not_suffix hfront (by decide),
      not_suffix hfront fun hlast => h.code_bracket (List.mem_of_getLast? hlast),
      htext front hfront, not_suffix hfront h.lang_bracket, List.forall_mem_nil _⟩

theorem not_opening_guardLine (hshape : shape ∈ shapes kind) (h : Quotable view code lang) :
    ¬ shape.opening <:+:
      "<?php if ($this->canDo->get('".toList ++ view ++ "." ++ code ++ ".viewtab')) : ?>" := by
  rw [guardLine_eq_join]
  refine not_opening_join hshape ?_ fun front hfront => ?_
  · have hname : Unquoted (view ++ "." ++ code ++ ".viewtab") :=
      ((h.view_quote.append (by decide)).append h.code_quote).append (by decide)
    simp only [List.forall_mem_cons]
    exact ⟨by decide, hname, by decide, List.forall_mem_nil _⟩
  · have hphp : ∀ front ∈ fronts, ¬ front <:+ "<?php if ($this->canDo->get(".toList := by decide
    have htab : (view ++ "." ++ code ++ ".viewtab".toList).getLast? ≠ some '(' := by
      rw [List.getLast?_append_of_ne_nil _ (by decide)]
      decide
    simp only [List.dropLast_cons_cons, List.dropLast_singleton, List.forall_mem_cons]
    exact ⟨hphp front hfront, not_suffix hfront htab, List.forall_mem_nil _⟩

theorem not_opening_endCall (hshape : shape ∈ shapes kind) :
    ¬ shape.opening <:+: "<?php echo JHtml::_('bootstrap.endTab'); ?>" := by
  have hpieces : "<?php echo JHtml::_('bootstrap.endTab'); ?>".toList =
      join ['\''] ["<?php echo JHtml::_(", "bootstrap.endTab", "); ?>"] := by decide
  rw [hpieces]
  refine not_opening_join hshape (by decide) fun front hfront => ?_
  simp only [List.dropLast_cons_cons, List.dropLast_singleton, List.forall_mem_cons]
  exact ⟨not_suffix_htmlCall hfront, not_suffix hfront (by decide), List.forall_mem_nil _⟩

theorem opening_append_line_iff (hs : shape.Solid) (base level : Nat) :
    shape.opening <:+: t ++ line (indent base) level u ↔
      shape.opening <:+: t ∨ shape.opening <:+: u := by
  obtain ⟨c, w, hopening, -⟩ := hs.start
  have hc : c ∉ indent (base + level) := by
    refine not_mem_indent _ fun htab => ?_
    have hblank := hs.opening_blank c (by rw [hopening]; exact List.mem_cons_self)
    rw [htab] at hblank
    exact absurd hblank (by decide)
  rw [line_eq, infix_around_iff (hs.not_mem_opening (by decide)), hopening,
    infix_append_iff_of_not_mem hc]

end TabMarkup

/-! ## Calls inside the markup -/

namespace CallShape

open TabMarkup

theorem Lists.append_line (hs : shape.Solid) (h : shape.Lists t names) (base level : Nat)
    (hu : ¬ shape.opening <:+: u) : shape.Lists (t ++ line (indent base) level u) names := by
  rw [line_eq]
  refine h.before hs (by decide) fun hinfix => ?_
  have hline : shape.opening <:+: [] ++ line (indent base) level u := by
    rw [List.nil_append, line_eq]
    exact List.infix_cons hinfix
  exact ((opening_append_line_iff hs base level).1 hline).elim
    (fun hnil => shape.opening_ne_nil (List.infix_nil.1 hnil)) hu

theorem Lists.indentLines (hs : shape.Solid) (h : shape.Lists t names) (level : Nat)
    (hnames : ∀ name ∈ names, '\n' ∉ name) {pre : Text} (hpre : ¬ shape.opening <:+: pre) :
    shape.Lists (pre ++ Markup.indentLines (indent level) t) names := by
  have hlead : ∀ x ∈ indent level, isBlank x = true := by
    intro x hx
    rw [List.eq_of_mem_replicate hx]
    decide
  rw [indentLines_eq]
  exact (((h.trim hs).reindent hs hlead hnames).behind_blank hs hlead).behind hs (by decide) hpre

/-- The block of a tab behind a text that opens no call. -/
theorem Lists.wrap (hshape : shape ∈ shapes kind) (h : shape.Lists t names) (level : Nat)
    (hnames : ∀ name ∈ names, '\n' ∉ name)
    (hopening : ¬ shape.opening <:+: openingCall view code lang) {pre : Text}
    (hpre : ¬ shape.opening <:+: pre) :
    shape.Lists (pre ++ TabMarkup.wrap view code lang t (indent level)) names := by
  have hs := solid_of_mem hshape
  unfold TabMarkup.wrap
  split
  · rw [indent_append]
    exact h.indentLines hs (level + 1) hnames hpre
  · have hfront : ¬ shape.opening <:+: pre ++
        line (indent level) 1 (openingCall view code lang) ++
        line (indent level) 2 "<div class=\"row-fluid form-horizontal-desktop\">" ++
        line (indent level) 3 "<div class=\"span12\">" := by
      simp only [opening_append_line_iff hs, not_or]
      exact ⟨⟨⟨hpre, hopening⟩, not_opening_of_not_mem hshape (by decide)⟩,
        not_opening_of_not_mem hshape (by decide)⟩
    have hdiv : ¬ shape.opening <:+: "</div>" := not_opening_of_not_mem hshape (by decide)
    have hblock := h.indentLines hs (level + 4) hnames hfront
    have hlists := ((hblock.append_line hs level 3 hdiv).append_line hs level 2 hdiv).append_line hs
      level 1 (not_opening_endCall hshape)
    unfold scaffold
    rw [indent_append]
    simpa only [List.append_assoc] using hlists

theorem Lists.guard (hshape : shape ∈ shapes kind) (h : shape.Lists t names)
    (hnames : ∀ name ∈ names, '\n' ∉ name) (hnaming : Quotable view code lang) :
    shape.Lists (TabMarkup.guard view code (TabMarkup.wrap view code lang t (indent 1))) names := by
  have hs := solid_of_mem hshape
  have hfront : ¬ shape.opening <:+: guardOpening view code := by
    have hnil : ¬ shape.opening <:+: [] := not_opening_of_not_mem hshape List.not_mem_nil
    have hline := not_opening_guardLine hshape hnaming
    rw [← List.nil_append (guardOpening view code)]
    exact mt (opening_append_line_iff hs 0 1).1 (not_or.2 ⟨hnil, hline⟩)
  exact (h.wrap hshape 1 hnames (not_opening_openingCall hshape hnaming) hfront).append_line hs 0 1
    (not_opening_of_not_mem hshape (by decide))

end CallShape

/-! ## Compiled tabs -/

namespace TabContext

open Identifier

variable {context : TabContext} {raw : RawTab}

theorem unquoted_ofLabel (letters : LetterCase) (label : Text) :
    Unquoted (ofLabel letters label) := by
  have hall : ∀ quote ∈ quotes, ¬ (quote.isAlpha = true ∨ quote = '_') := by simp [quotes]
  exact fun quote hquote => not_mem_ofLabel (hall quote hquote) letters label

/-- The key of a tab ends in its name or, where that is empty, in an underscore. -/
theorem getLast?_langKey (name : Text) : (context.langKey name).getLast? ≠ some '(' := by
  have hend : '(' ∉ "_".toList ++ ofLabel .upper name := by
    rw [List.mem_append, not_or]
    exact ⟨by decide, not_mem_ofLabel (by decide) .upper name⟩
  have hne : "_".toList ++ ofLabel .upper name ≠ [] :=
    List.append_ne_nil_of_left_ne_nil (by decide) _
  unfold langKey
  rw [List.append_assoc, List.getLast?_append_of_ne_nil _ hne]
  exact fun hbracket => hend (List.mem_of_getLast? hbracket)

theorem quotable (hconfig : Unquoted context.config.langPrefix) (hview : Unquoted context.view)
    (name : Text) :
    TabMarkup.Quotable context.view (ofLabel .lower name) (context.langKey name) where
  view_quote := hview
  code_quote := unquoted_ofLabel .lower name
  lang_quote := by
    have hplain : Unquoted "_" := by decide
    exact (((hconfig.append hplain).append (unquoted_ofLabel _ _)).append hplain).append
      (unquoted_ofLabel _ _)
  code_bracket := not_mem_ofLabel (by decide) .lower name
  lang_bracket := getLast?_langKey name

theorem lists_html (hshape : shape ∈ shapes kind) (hconfig : Unquoted context.config.langPrefix)
    (hview : Unquoted context.view) (h : shape.Lists (context.body raw) names)
    (hnames : ∀ name ∈ names, '\n' ∉ name) : shape.Lists (context.html raw) names := by
  have hquotable := quotable hconfig hview (tabName raw)
  unfold html
  dsimp only
  split
  · exact h.guard hshape hnames hquotable
  · exact h.wrap hshape 0 hnames (TabMarkup.not_opening_openingCall hshape hquotable)
      (not_opening_of_not_mem hshape List.not_mem_nil)

/-- A compiled tab refers to what its body refers to, if the body leaves no call open and no name
in it goes over a line break. -/
theorem scan_compileTab (context : TabContext) (raw : RawTab)
    (hconfig : Unquoted context.config.langPrefix) (hview : Unquoted context.view)
    (hsettled : ∀ kind, ∀ shape ∈ shapes kind, shape.Settled (context.body raw))
    (hnames : ∀ kind, ∀ name ∈ (References.scan (context.body raw)).names kind, '\n' ∉ name) :
    References.scan (context.compileTab raw).tab.html = References.scan (context.body raw) := by
  have hscan : ∀ kind, ∀ shape ∈ shapes kind,
      shape.scan (context.html raw) = shape.scan (context.body raw) := by
    intro kind shape hshape
    have hlists := (hsettled kind shape hshape).lists
    have hbreak : ∀ name ∈ shape.names (context.body raw), '\n' ∉ name := by
      intro name hname hmem
      have hscanned : name ∈ shape.scan (context.body raw) :=
        List.mem_filter.2 ⟨hname, by simp [List.ne_nil_of_mem hmem]⟩
      exact hnames kind name (mem_names_of_mem_scan hshape hscanned) hmem
    have hhtml := lists_html hshape hconfig hview hlists hbreak
    rw [CallShape.scan, CallShape.scan, hhtml.names_eq (solid_of_mem hshape)]
  obtain ⟨hts, htd, hls, hld⟩ := forall_shapes_iff.1 hscan
  change References.scan (context.html raw) = References.scan (context.body raw)
  unfold References.scan
  rw [hts, htd, hls, hld]

/-- A tab with a call of either kind, on two lines. -/
def calling : RawTab where
  name := some "Main"
  html := "echo $this->loadTemplate('row');\r\necho JLayoutHelper::render('head', $x);"
  guarded := true

theorem settled_calling :
    ∀ kind, ∀ shape ∈ shapes kind, shape.Settled (look.body calling) := by
  have hbody : look.body calling = calling.html := by decide +kernel
  have htemplate : templateSingle.Settled calling.html := by
    have hopened : cut? templateSingle.opening calling.html =
        some ("echo ".toList, calling.html.drop 26) := by decide +kernel
    have hclosed : cut? templateSingle.closing (calling.html.drop 26) =
        some ("row".toList, calling.html.drop 31) := by decide +kernel
    exact (settled_of_cut?_opening (by decide +kernel)).of_cut? hopened hclosed
  have hlayout : layoutSingle.Settled calling.html := by
    have hopened : cut? layoutSingle.opening calling.html =
        some (calling.html.take 39, calling.html.drop 62) := by decide +kernel
    have hclosed : cut? layoutSingle.closing (calling.html.drop 62) =
        some ("head".toList, calling.html.drop 68) := by decide +kernel
    exact (settled_of_cut?_opening (by decide +kernel)).of_cut? hopened hclosed
  rw [hbody]
  exact forall_shapes_iff.2 ⟨htemplate, settled_of_cut?_opening (by decide +kernel), hlayout,
    settled_of_cut?_opening (by decide +kernel)⟩

theorem scan_compileTab_calling :
    Unquoted look.config.langPrefix ∧ Unquoted look.view ∧
      (∀ kind, ∀ shape ∈ shapes kind, shape.Settled (look.body calling)) ∧
      (∀ kind, ∀ name ∈ (References.scan (look.body calling)).names kind, '\n' ∉ name) ∧
      References.scan (look.compileTab calling).tab.html = ⟨["row"], ["head"]⟩ := by
  have hconfig : Unquoted look.config.langPrefix := by decide
  have hview : Unquoted look.view := by decide
  have hbody : References.scan (look.body calling) = ⟨["row"], ["head"]⟩ := by decide +kernel
  have hnames : ∀ kind, ∀ name ∈ (References.scan (look.body calling)).names kind, '\n' ∉ name := by
    rw [hbody]
    intro kind
    cases kind <;> decide
  exact ⟨hconfig, hview, settled_calling, hnames,
    (scan_compileTab look calling hconfig hview settled_calling hnames).trans hbody⟩

end TabContext

end ViewBuilder
