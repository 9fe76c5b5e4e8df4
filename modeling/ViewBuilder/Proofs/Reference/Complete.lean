import ViewBuilder.Proofs.Reference.Calls

/-!
# Which calls are found

A complete call is found where it stands, unless a call of the same shape is left open before it.
The open call ends at the next closing text of its shape, so it takes the opening text of the
complete call into its name. Calls of other shapes play no part in this.
-/

namespace ViewBuilder

open Text

def References.names (references : References) : AliasKind → List Text
  | .template => references.templates
  | .layout => references.layouts

namespace CallShape

variable {shape : CallShape} {quote : Char} {x y t name last final : Text}
  {calls more : List Called}

/-! ## The four shapes -/

def shapes : AliasKind → List CallShape
  | .template => [templateSingle, templateDouble]
  | .layout => [layoutSingle, layoutDouble]

theorem forall_shapes_iff {p : AliasKind → CallShape → Prop} :
    (∀ kind, ∀ shape ∈ shapes kind, p kind shape) ↔
      p .template templateSingle ∧ p .template templateDouble ∧ p .layout layoutSingle ∧
        p .layout layoutDouble := by
  constructor
  · intro h
    exact ⟨h _ _ List.mem_cons_self, h _ _ (List.mem_cons_of_mem _ List.mem_cons_self),
      h _ _ List.mem_cons_self, h _ _ (List.mem_cons_of_mem _ List.mem_cons_self)⟩
  · rintro ⟨hts, htd, hls, hld⟩ (_ | _)
    · exact List.forall_mem_cons.2 ⟨hts, List.forall_mem_singleton.2 htd⟩
    · exact List.forall_mem_cons.2 ⟨hls, List.forall_mem_singleton.2 hld⟩

theorem mem_names_of_mem_scan {kind : AliasKind} (hshape : shape ∈ shapes kind)
    (h : name ∈ shape.scan t) : name ∈ (References.scan t).names kind := by
  cases kind <;>
  · simp only [shapes, List.mem_cons, List.not_mem_nil, or_false] at hshape
    rcases hshape with rfl | rfl
    · exact List.mem_append_left _ h
    · exact List.mem_append_right _ h

def quotes : List Char := ['\'', '"']

/-- The closing text begins with a quote, and the characters with which the two texts begin are
nowhere else in them, but for the quote at the end of the opening text. -/
structure Quoted (shape : CallShape) (quote : Char) : Prop where
  opening : ∃ c w, shape.opening = c :: w ∧ c ∉ w ∧ c ∉ shape.closing
  closing : ∃ w, shape.closing = quote :: w ∧ quote ∉ w
  before : quote ∉ shape.opening.dropLast

theorem exists_quoted {kind : AliasKind} (hshape : shape ∈ shapes kind) :
    ∃ quote ∈ quotes, shape.Quoted quote := by
  have hts : templateSingle.Quoted '\'' :=
    ⟨⟨'$', "this->loadTemplate('", by decide⟩, ⟨")", by decide⟩, by decide⟩
  have htd : templateDouble.Quoted '"' :=
    ⟨⟨'$', "this->loadTemplate(\"", by decide⟩, ⟨")", by decide⟩, by decide⟩
  have hls : layoutSingle.Quoted '\'' :=
    ⟨⟨'J', "LayoutHelper::render('", by decide⟩, ⟨",", by decide⟩, by decide⟩
  have hld : layoutDouble.Quoted '"' :=
    ⟨⟨'J', "LayoutHelper::render(\"", by decide⟩, ⟨",", by decide⟩, by decide⟩
  have hall : ∀ kind, ∀ shape ∈ shapes kind, ∃ quote ∈ quotes, shape.Quoted quote :=
    forall_shapes_iff.2 ⟨⟨_, by decide, hts⟩, ⟨_, by decide, htd⟩, ⟨_, by decide, hls⟩,
      ⟨_, by decide, hld⟩⟩
  exact hall kind shape hshape

/-! ## Texts put together -/

/-- What is left behind the calls of a text holds no opening text. -/
def Settled (shape : CallShape) (t : Text) : Prop :=
  ∃ calls last, shape.Divided t calls last ∧ ¬ shape.opening <:+: last

theorem Divided.scan_eq (h : shape.Divided t calls last) :
    shape.scan t = (calls.map Called.name).filter fun name => !name.isEmpty := by
  rw [scan, h.names_eq]

/-- The calls of a text stay when more text comes behind it. -/
theorem Divided.append {v : Text} (hx : shape.Divided x calls last)
    (hv : shape.Divided (last ++ v) more final) :
    shape.Divided (x ++ v) (calls ++ more) final where
  text_eq := by
    rw [hx.text_eq, List.append_assoc, hv.text_eq, textOf, textOf, textOf, List.flatMap_append,
      List.append_assoc]
  gap := List.forall_mem_append.2 ⟨hx.gap, hv.gap⟩
  name := List.forall_mem_append.2 ⟨hx.name, hv.name⟩
  last := hv.last

/-- The text up to a call has the calls before it. -/
theorem divided_before (hx : shape.Divided x calls last) {gap : Text}
    (hgap : OnlyAtEnd shape.opening gap) :
    shape.Divided (shape.textOf calls ++ gap) calls gap where
  text_eq := rfl
  gap := hx.gap
  name := hx.name
  last front behind heq _ := hgap.not_infix shape.opening_ne_nil ⟨front, behind, heq.symm⟩

theorem Divided.append_call (hq : shape.Quoted quote) (hx : shape.Divided x calls last)
    (hlast : ¬ shape.opening <:+: last) (hname : quote ∉ name)
    (hy : shape.Divided y more final) :
    shape.Divided (x ++ (shape.call name ++ y)) (calls ++ ⟨last, name⟩ :: more) final := by
  obtain ⟨c, w, hopening, hc, -⟩ := hq.opening
  obtain ⟨v, hclosing, hquote⟩ := hq.closing
  refine hx.append (divided_cons_iff.2 ⟨name ++ shape.closing ++ y, y, ?_, ?_, hy⟩)
  · refine cut?_eq_some_iff_onlyAtEnd.2 ⟨by simp [call], ?_⟩
    rw [hopening] at hlast ⊢
    exact onlyAtEnd_of_not_infix hc hlast
  · refine cut?_eq_some_iff_onlyAtEnd.2 ⟨rfl, ?_⟩
    rw [hclosing]
    exact onlyAtEnd_of_not_infix hquote fun h => hname (h.subset List.mem_cons_self)

/-- What stands before a closing text begins as an opening text does. -/
theorem Quoted.exists_tail {v tail rest : Text} (hq : shape.Quoted quote)
    (hv : shape.opening <+: v) (hclosed : cut? shape.closing v = some (tail, rest)) :
    ∃ c more, tail = c :: more ∧ c ∉ shape.closing := by
  obtain ⟨c, w, hopening, -, hc⟩ := hq.opening
  obtain ⟨w', hclosing, -⟩ := hq.closing
  rw [eq_of_cut? hclosed, hopening] at hv
  cases tail with
  | nil =>
    rw [hclosing] at hv hc
    rw [(List.cons_prefix_cons.1 hv).1] at hc
    exact absurd List.mem_cons_self hc
  | cons d more =>
    rw [(List.cons_prefix_cons.1 hv).1] at hc
    exact ⟨d, more, rfl, hc⟩

/-- A call that is left open ends at the first closing text of what comes behind. -/
theorem Divided.append_open {gap inner v tail rest : Text} (hq : shape.Quoted quote)
    (hx : shape.Divided x calls last) (hopened : cut? shape.opening last = some (gap, inner))
    (hv : shape.opening <+: v) (hclosed : cut? shape.closing v = some (tail, rest))
    (hrest : shape.Divided rest more final) :
    shape.Divided (x ++ v) (calls ++ ⟨gap, inner ++ tail⟩ :: more) final := by
  obtain ⟨c, after, rfl, hc⟩ := hq.exists_tail hv hclosed
  obtain ⟨rfl, hgap⟩ := cut?_eq_some_iff_onlyAtEnd.1 hopened
  obtain ⟨rfl, htail⟩ := cut?_eq_some_iff_onlyAtEnd.1 hclosed
  refine hx.append (divided_cons_iff.2
    ⟨inner ++ (c :: after ++ shape.closing ++ rest), rest, ?_, ?_, hrest⟩)
  · exact cut?_eq_some_iff_onlyAtEnd.2 ⟨by simp, hgap⟩
  · refine cut?_eq_some_iff_onlyAtEnd.2 ⟨by simp, ?_⟩
    exact htail.append (hx.last gap inner rfl) rfl hc

/-- A closing text does not begin before the quote at the end of an opening one. -/
theorem Quoted.opening_prefix {v tail rest : Text} (hq : shape.Quoted quote)
    (hv : shape.opening <+: v) (hclosed : cut? shape.closing v = some (tail, rest)) :
    shape.opening.dropLast <+: tail := by
  obtain ⟨w, hclosing, -⟩ := hq.closing
  have hquote : tail ++ [quote] <+: v := by
    rw [eq_of_cut? hclosed, hclosing]
    exact ⟨w ++ rest, by simp⟩
  have hopening : shape.opening.dropLast <+: v := (List.dropLast_prefix _).trans hv
  by_cases hlength : shape.opening.dropLast.length ≤ tail.length
  · exact List.prefix_of_prefix_length_le hopening ((List.prefix_append _ _).trans hquote) hlength
  · have hin : tail ++ [quote] <+: shape.opening.dropLast := by
      refine List.prefix_of_prefix_length_le hquote hopening ?_
      rw [List.length_append, List.length_singleton]
      omega
    exact absurd (hin.subset (by simp)) hq.before

/-! ## A complete call -/

/-- A complete call with a name that holds no quote: the names of the text are those before, this
name and those behind, if no call of the shape is left open before. Otherwise the open call goes on
into the complete one, to the next closing text, and the names behind are those from there on. -/
theorem scan_around_call (kind : AliasKind) (shape : CallShape) (hshape : shape ∈ shapes kind)
    (x name y : Text) (hname : name ≠ []) (hquotes : ∀ quote ∈ quotes, quote ∉ name) :
    (shape.Settled x →
      name ∈ (References.scan (x ++ shape.call name ++ y)).names kind ∧
      shape.scan (x ++ shape.call name ++ y) = shape.scan x ++ name :: shape.scan y) ∧
    (¬ shape.Settled x → ∃ front inner tail rest, x = front ++ shape.opening ++ inner ∧
      shape.call name ++ y = tail ++ shape.closing ++ rest ∧ shape.opening.dropLast <+: tail ∧
      shape.scan (x ++ shape.call name ++ y) =
        shape.scan front ++ (inner ++ tail) :: shape.scan rest) := by
  obtain ⟨quote, hmem, hq⟩ := exists_quoted hshape
  rw [List.append_assoc]
  constructor
  · rintro ⟨calls, last, hx, hlast⟩
    obtain ⟨more, final, hy, -⟩ := shape.exists_divided y
    have hcall := hx.append_call hq hlast (hquotes quote hmem) hy
    have hscan : shape.scan (x ++ (shape.call name ++ y)) =
        shape.scan x ++ name :: shape.scan y := by
      rw [hcall.scan_eq, hx.scan_eq, hy.scan_eq]
      simp [hname]
    refine ⟨mem_names_of_mem_scan hshape ?_, hscan⟩
    rw [hscan]
    simp
  · intro hopen
    obtain ⟨calls, last, hx, -⟩ := shape.exists_divided x
    have hlast : shape.opening <:+: last := by
      by_contra hlast
      exact hopen ⟨calls, last, hx, hlast⟩
    obtain ⟨gap, inner, hopened⟩ := exists_cut?_of_infix hlast
    -- The complete call has a closing text, so the open one ends there or before.
    have hclosing : shape.closing <:+: shape.call name ++ y :=
      ⟨shape.opening ++ name, y, by simp [call]⟩
    obtain ⟨tail, rest, hclosed⟩ := exists_cut?_of_infix hclosing
    have hbegin : shape.opening <+: shape.call name ++ y :=
      ⟨name ++ shape.closing ++ y, by simp [call]⟩
    obtain ⟨more, final, hrest, -⟩ := shape.exists_divided rest
    have hcall := hx.append_open hq hopened hbegin hclosed hrest
    have hgap := (cut?_eq_some_iff_onlyAtEnd.1 hopened).2
    refine ⟨shape.textOf calls ++ gap, inner, tail, rest, ?_, eq_of_cut? hclosed,
      hq.opening_prefix hbegin hclosed, ?_⟩
    · rw [hx.text_eq, eq_of_cut? hopened]
      simp
    · rw [hcall.scan_eq, (divided_before hx hgap).scan_eq, hrest.scan_eq]
      obtain ⟨c, after, rfl, -⟩ := hq.exists_tail hbegin hclosed
      simp

/-- A call without arguments, and the call in which it ends. -/
def soloText : Text := "JLayoutHelper::render('solo') JLayoutHelper::render('a', $x) "

theorem settled_soloText : layoutSingle.Settled soloText := by
  refine ⟨[⟨[], "solo') JLayoutHelper::render('a"⟩], " $x) ", ?_, ?_⟩
  · refine divided_cons_iff.2 ⟨soloText.drop 23, " $x) ", by decide +kernel, by decide +kernel, ?_⟩
    exact divided_nil_iff.2 ⟨rfl, callless_of_cut?_opening (by decide +kernel)⟩
  · rw [← cut?_eq_none_iff]
    decide +kernel

theorem scan_around_call_soloText :
    layoutSingle ∈ shapes .layout ∧ "b".toList ≠ [] ∧ (∀ quote ∈ quotes, quote ∉ "b".toList) ∧
      layoutSingle.Settled soloText ∧
      "b".toList ∈ (References.scan (soloText ++ layoutSingle.call "b" ++ ")")).names .layout := by
  have hshape : layoutSingle ∈ shapes .layout := List.mem_cons_self
  have hname : "b".toList ≠ [] := by decide
  have hquotes : ∀ quote ∈ quotes, quote ∉ "b".toList := by simp [quotes]
  have hcall := scan_around_call .layout layoutSingle hshape soloText "b" ")" hname hquotes
  exact ⟨hshape, hname, hquotes, settled_soloText, (hcall.1 settled_soloText).1⟩

/-- A call without arguments takes the call behind it into its name. -/
theorem not_mem_names_behind_solo :
    (References.scan "JLayoutHelper::render('solo') JLayoutHelper::render('a', $x)").layouts =
        ["solo') JLayoutHelper::render('a".toList] ∧
      ¬ ∀ (kind : AliasKind) (shape : CallShape), shape ∈ shapes kind → ∀ x name y : Text,
        name ≠ [] → (∀ quote ∈ quotes, quote ∉ name) →
        name ∈ (References.scan (x ++ shape.call name ++ y)).names kind := by
  refine ⟨by decide +kernel, fun h => ?_⟩
  have hname : "a".toList ≠ [] := by decide
  have hquotes : ∀ quote ∈ quotes, quote ∉ "a".toList := by simp [quotes]
  have hmem := h .layout layoutSingle List.mem_cons_self "JLayoutHelper::render('solo') " "a" " $x)"
    hname hquotes
  have hnot : "a".toList ∉ (References.scan ("JLayoutHelper::render('solo') ".toList ++
      layoutSingle.call "a" ++ " $x)".toList)).names .layout := by decide +kernel
  exact hnot hmem

/-- So does a template call with an expression in its brackets. -/
example : (References.scan "$this->loadTemplate('a' . $b) $this->loadTemplate('row')").templates =
    ["a' . $b) $this->loadTemplate('row".toList] := by
  decide +kernel

end CallShape

end ViewBuilder
