import ViewBuilder.Proofs.Run.Operation

/-!
# Fragments are fetched and stored once

Whatever is done with a run, what is stored for a template or a layout stays as it is, and what was
found for a view or a layout is not asked for again. This needs that both sides of a layout are
filled together, since the second one is written without a look at what is there.
-/

namespace ViewBuilder

namespace Search

variable {search : Search} {reference : Reference} {registry : Registry} {fragment : Fragment}
  {path written : RegistryPath}

/-! ## Both sides together -/

/-- What is at the places of fragments: never null, and the same wherever the same fragment is
written. -/
structure Even (config : Config) (registry : Registry) : Prop where
  filled : ∀ {search : Search} {target reference path value},
    search.pathFor target reference = .ok path → registry.get? path = some value →
    value.isNull = false
  together : ∀ {search : Search} {reference path other}, search.config = config →
    search.Writes reference path → search.Writes reference other →
    registry.get? path = registry.get? other

variable {config : Config}

theorem even_empty (config : Config) : Even config .empty where
  filled _ h := by
    rw [Registry.get?_empty] at h
    cases h
  together _ _ _ := by rw [Registry.get?_empty, Registry.get?_empty]

/-- Where a reference is asked for, nothing is stored on either side. -/
theorem Even.get?_eq_none (heven : Even config registry) (hconfig : search.config = config)
    (hpath : search.path reference = .ok path) (habsent : registry.has path = false)
    (hwritten : search.Writes reference written) : registry.get? written = none := by
  rw [heven.together hconfig hwritten (.inl hpath)]
  cases hget : registry.get? path with
  | none => rfl
  | some value =>
    rw [Registry.has_of_get? hget (heven.filled hpath hget)] at habsent
    cases habsent

theorem Even.store (heven : Even config registry) (hconfig : search.config = config)
    (hpath : search.path reference = .ok path) :
    Even config (search.store registry path reference fragment) where
  filled {other side _ place value} hplace hget := by
    by_cases hw : search.Writes reference place
    · rw [get?_store hpath hw] at hget
      obtain rfl := Option.some.inj hget
      rfl
    · rw [get?_store_of_not_writes hpath hplace hw] at hget
      exact heven.filled hplace hget
  together {other otherReference first second} hother hfirst hsecond := by
    have hsame : search.config = other.config := hconfig.trans hother.symm
    obtain ⟨_, hfirstPath⟩ := hfirst.exists_pathFor
    obtain ⟨_, hsecondPath⟩ := hsecond.exists_pathFor
    by_cases hw : search.Writes reference first
    · have hw' := hfirst.of_meet hsame.symm hw hsecond
      rw [get?_store hpath hw, get?_store hpath hw']
    · have hw' : ¬ search.Writes reference second :=
        fun h => hw (hsecond.of_meet hsame.symm h hfirst)
      rw [get?_store_of_not_writes hpath hfirstPath hw,
        get?_store_of_not_writes hpath hsecondPath hw']
      exact heven.together hother hfirst hsecond

theorem Even.congr {after : Registry} (heven : Even config registry)
    (h : ∀ {search : Search} {target reference path}, search.pathFor target reference = .ok path →
      after.get? path = registry.get? path) : Even config after where
  filled hpath hget := heven.filled hpath ((h hpath).symm.trans hget)
  together hconfig hfirst hsecond := by
    obtain ⟨_, hfirstPath⟩ := hfirst.exists_pathFor
    obtain ⟨_, hsecondPath⟩ := hsecond.exists_pathFor
    rw [h hfirstPath, h hsecondPath]
    exact heven.together hconfig hfirst hsecond

end Search

open Search

variable {config : Config} {start registry after : Registry} {asked : List Question}

/-! ## One step -/

/-- The place of what is asked for. -/
def Question.path (config : Config) (question : Question) : Except Failure RegistryPath :=
  (Search.mk config ⟨fun _ _ _ _ => none⟩ question.view).path question.reference

/-- No value at the place of a fragment goes away or changes. -/
def Registry.Keeps (registry after : Registry) : Prop :=
  ∀ {search : Search} {target reference path value}, search.pathFor target reference = .ok path →
    registry.get? path = some value → after.get? path = some value

theorem Registry.Keeps.trans {between : Registry} (h : registry.Keeps between)
    (hnext : between.Keeps after) : registry.Keeps after :=
  fun hpath hget => hnext hpath (h hpath hget)

theorem get?_set_customTabs {search : Search} {target : BuildTarget} {reference : Reference}
    {view : Text} {path tabs : RegistryPath} {value : Json}
    (htabs : RegistryPath.customTabs view = .ok tabs)
    (hpath : search.pathFor target reference = .ok path) :
    (registry.set tabs value).get? path = registry.get? path :=
  Registry.get?_set_of_diverges _ _ (RegistryPath.customTabs_diverges hpath htabs)

theorem Step.even {question : Option Question} (h : Step config registry question after)
    (heven : Even config registry) : Even config after := by
  cases h with
  | tabs _ htabs => exact heven.congr (get?_set_customTabs htabs)
  | unknown _ _ _ => exact heven
  | stored hconfig hpath _ => exact heven.store hconfig hpath

theorem Step.keeps {question : Option Question} (h : Step config registry question after)
    (heven : Even config registry) : registry.Keeps after := by
  intro other target reference place value hplace hget
  cases h with
  | tabs _ htabs =>
    rw [get?_set_customTabs htabs hplace]
    exact hget
  | unknown _ _ _ => exact hget
  | stored hconfig hpath habsent =>
    rw [get?_store_of_not_writes hpath hplace, hget]
    -- What is written was not there.
    intro hw
    rw [heven.get?_eq_none hconfig hpath habsent hw] at hget
    cases hget

/-- What is asked for is not there. -/
theorem Step.absent {question : Question} (h : Step config registry (some question) after) :
    ∃ path, question.path config = .ok path ∧ registry.has path = false := by
  cases h with
  | unknown hconfig hpath habsent =>
    subst hconfig
    exact ⟨_, hpath, habsent⟩
  | stored hconfig hpath habsent =>
    subst hconfig
    exact ⟨_, hpath, habsent⟩

/-- What was found is there. -/
theorem Step.present {question : Question} (h : Step config registry (some question) after)
    (hanswer : question.answer.isSome = true) :
    ∃ path value, question.path config = .ok path ∧ after.get? path = some value := by
  cases h with
  | unknown hconfig hpath habsent => cases hanswer
  | stored hconfig hpath habsent =>
    subst hconfig
    exact ⟨_, _, hpath, get?_store hpath (.inl hpath)⟩

/-! ## Many steps -/

theorem Steps.even (h : Steps config start asked registry) (heven : Even config start) :
    Even config registry := by
  induction h with
  | start => exact heven
  | step _ hstep ih => exact hstep.even ih

theorem Steps.keeps (h : Steps config start asked registry) (heven : Even config start) :
    start.Keeps registry := by
  induction h with
  | start => exact fun _ hget => hget
  | step hsteps hstep ih => exact ih.trans (hstep.keeps (hsteps.even heven))

theorem Steps.present (h : Steps config start asked registry) (heven : Even config start) :
    ∀ question ∈ asked, question.answer.isSome = true →
      ∃ path value, question.path config = .ok path ∧ registry.get? path = some value := by
  induction h with
  | start => exact nofun
  | step hsteps hstep ih =>
    intro question hmem hanswer
    rcases List.mem_append.1 hmem with hearlier | hnow
    · obtain ⟨path, value, hpath, hget⟩ := ih question hearlier hanswer
      exact ⟨path, value, hpath, hstep.keeps (hsteps.even heven) hpath hget⟩
    · obtain rfl := Option.mem_toList.1 hnow
      exact hstep.present hanswer

/-- Both are about one template of one view, or about one layout. -/
def Question.Same (question other : Question) : Prop :=
  question.reference = other.reference ∧
    (question.reference.kind = .template → question.view = other.view)

theorem Question.Same.path_eq {question other : Question} (h : question.Same other)
    (config : Config) : question.path config = other.path config := by
  obtain ⟨hreference, hview⟩ := h
  obtain ⟨view, ⟨kind, name⟩, answer⟩ := question
  obtain ⟨otherView, otherReference, otherAnswer⟩ := other
  obtain rfl : ⟨kind, name⟩ = otherReference := hreference
  cases kind with
  | template =>
    obtain rfl : view = otherView := hview rfl
    rfl
  | layout => rfl

/-- What was found is never asked for again. -/
theorem Steps.pairwise (h : Steps config start asked registry) (heven : Even config start) :
    asked.Pairwise fun earlier later => earlier.answer.isSome = true → ¬ earlier.Same later := by
  induction h with
  | start => exact .nil
  | @step asked registry after question hsteps hstep ih =>
    cases question with
    | none =>
      rw [Option.toList_none, List.append_nil]
      exact ih
    | some question =>
      refine List.pairwise_append.2 ⟨ih, List.pairwise_singleton _ _, ?_⟩
      intro earlier hearlier later hlater hanswer hsame
      obtain rfl := List.mem_singleton.1 hlater
      -- The place of the earlier question is filled, that of the later one is not.
      obtain ⟨path, value, hpath, hget⟩ := hsteps.present heven earlier hearlier hanswer
      obtain ⟨absent, habsentPath, habsent⟩ := hstep.absent
      have hsamePath := hpath.symm.trans ((hsame.path_eq config).trans habsentPath)
      obtain rfl := Except.ok.inj hsamePath
      rw [Registry.has_of_get? hget ((hsteps.even heven).filled hpath hget)] at habsent
      cases habsent

namespace Run

/-! ## A whole run -/

/-- Whatever is done with a fresh run, and whoever answers: a template or a layout that is stored
once stays as it is on each side, and what was found for a view, or as a layout for any view, is
never asked for again. -/
theorem stored_once (config : Config) (earlier later : List Call) :
    (∀ target view name path value,
      (RegistryPath.templateData target view name = .ok path ∨
        RegistryPath.layoutData target name = .ok path) →
      ((Run.start config).performAll earlier).run.registry.get? path = some value →
      ((Run.start config).performAll (earlier ++ later)).run.registry.get? path = some value) ∧
    ((Run.start config).performAll (earlier ++ later)).asked.Pairwise fun first second =>
      first.answer.isSome = true → ¬ first.Same second := by
  have heven : Even config (Run.start config).registry := even_empty config
  constructor
  · intro target view name path value hpath hget
    have hbefore := (Run.start config).steps_performAll earlier
    have hafter := ((Run.start config).performAll earlier).run.steps_performAll later
    rw [performAll_append]
    rw [config_performAll] at hafter
    have hkeeps : Registry.Keeps _ _ := hafter.keeps (hbefore.even heven)
    let search : Search := ⟨config, ⟨fun _ _ _ _ => none⟩, view⟩
    rcases hpath with hpath | hpath
    · exact hkeeps (show search.pathFor target ⟨.template, name⟩ = .ok path from hpath) hget
    · exact hkeeps (show search.pathFor target ⟨.layout, name⟩ = .ok path from hpath) hget
  · exact ((Run.start config).steps_performAll (earlier ++ later)).pairwise heven

/-- Resolves a template and a layout that are both known. -/
def pairCall (view code : Text) : Call :=
  ⟨AliasResolver.ofSource fun _ _ _ => some ⟨[], code⟩,
    .resolve view [] false ⟨["t".toList], ["l".toList]⟩⟩

/-- The second view finds the layout of the first, on the other side too. -/
theorem stored_once_pairCall :
    ∃ path, RegistryPath.layoutData .site "l" = .ok path ∧
      ((Run.start ⟨"P", .admin, .both, none, 32⟩).performAll
        ([pairCall "a" " "] ++ [pairCall "b" "  "])).run.registry.get? path =
          some (Fragment.toJson ⟨[], " "⟩) ∧
      ((Run.start ⟨"P", .admin, .both, none, 32⟩).performAll
        ([pairCall "a" " "] ++ [pairCall "b" "  "])).asked.Pairwise fun first second =>
          first.answer.isSome = true → ¬ first.Same second := by
  obtain ⟨hkept, hasked⟩ := stored_once ⟨"P", .admin, .both, none, 32⟩ [pairCall "a" " "]
    [pairCall "b" "  "]
  exact ⟨_, rfl, hkept .site [] "l" _ _ (.inr rfl) (by cbv), hasked⟩

end Run

end ViewBuilder
