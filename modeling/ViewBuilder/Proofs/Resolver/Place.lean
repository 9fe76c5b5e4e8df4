import ViewBuilder.Proofs.Registry.Set
import ViewBuilder.Resolver
import ViewBuilder.RunFile

/-!
# Where fragments are stored

Each reference of a view has a place of its own on each side. Storing a fragment fills its places
and changes nothing that diverges from them. A fragment can be read back from its place.
-/

namespace ViewBuilder

/-! ## Places -/

theorem BuildTarget.name_injective {target other : BuildTarget} (h : target.name = other.name) :
    target = other := by
  cases target <;> cases other <;> first | rfl | exact absurd h (by decide)

theorem BuildTarget.name_ne_other_name (target : BuildTarget) :
    target.name ≠ target.other.name :=
  fun hname => target.other_ne (BuildTarget.name_injective hname).symm

theorem BuildTarget.name_ne_nil (target : BuildTarget) : target.name ≠ [] := by
  cases target <;> decide

/-- The segments of the place of a reference. A layout has the same place in all views. -/
def Reference.segments (reference : Reference) (view : Text) (target : BuildTarget) : List Text :=
  match reference.kind with
  | .template => [RegistryPath.root, "template_data", target.name, view, reference.name]
  | .layout => [RegistryPath.root, "layout_data", target.name, reference.name]

theorem Reference.eq_of_segments_prefix {reference other : Reference} {view otherView : Text}
    {target otherTarget : BuildTarget}
    (h : reference.segments view target <+: other.segments otherView otherTarget) :
    target = otherTarget ∧ reference = other ∧ (reference.kind = .template → view = otherView) := by
  obtain ⟨kind, name⟩ := reference
  obtain ⟨otherKind, otherName⟩ := other
  have hbranch : "template_data".toList ≠ "layout_data".toList := by decide
  cases kind <;> cases otherKind <;>
    simp only [segments, List.cons_prefix_cons, List.prefix_nil, true_and, and_true,
      hbranch, hbranch.symm, false_and] at h
  · obtain ⟨ht, hv, hn⟩ := h
    exact ⟨BuildTarget.name_injective ht, by rw [hn], fun _ => hv⟩
  · obtain ⟨ht, hn⟩ := h
    exact ⟨BuildTarget.name_injective ht, by rw [hn], nofun⟩

namespace Search

variable {search : Search}

theorem pathFor_eq (search : Search) (target : BuildTarget) (reference : Reference) :
    search.pathFor target reference =
      RegistryPath.ofSegments (reference.segments search.view target) := by
  obtain ⟨kind, name⟩ := reference
  cases kind <;> rfl

theorem segments_of_pathFor {target : BuildTarget} {reference : Reference} {path : RegistryPath}
    (h : search.pathFor target reference = .ok path) :
    path.segments = reference.segments search.view target := by
  rw [pathFor_eq] at h
  exact RegistryPath.segments_of_ofSegments h

/-- A reference has a place unless a name is empty that goes into it. -/
theorem exists_pathFor_iff {target : BuildTarget} {reference : Reference} :
    (∃ path, search.pathFor target reference = .ok path) ↔
      reference.name ≠ [] ∧ (reference.kind = .template → search.view ≠ []) := by
  have hroot : RegistryPath.root ≠ [] := by decide
  have ht := target.name_ne_nil
  obtain ⟨kind, name⟩ := reference
  constructor
  · rintro ⟨path, h⟩
    have hne := path.segment_ne_nil
    rw [segments_of_pathFor h] at hne
    cases kind <;> simp_all [Reference.segments]
  · rintro ⟨hname, hview⟩
    rw [pathFor_eq]
    refine ⟨_, RegistryPath.ofSegments_eq_ok ?_ ?_⟩
    · cases kind <;> simp [Reference.segments]
    · cases kind <;> simp_all [Reference.segments]

theorem invalidPath_of_pathFor {target : BuildTarget} {reference : Reference} {failure : Failure}
    (h : search.pathFor target reference = .error failure) :
    ∃ path reason, failure = .invalidPath path reason := by
  rw [pathFor_eq] at h
  obtain ⟨fault, rfl⟩ := RegistryPath.exists_fault_of_ofSegments h
  exact ⟨_, _, rfl⟩

theorem diverges_of_pathFor {other : Search} {target otherTarget : BuildTarget}
    {reference otherReference : Reference} {path otherPath : RegistryPath}
    (h : search.pathFor target reference = .ok path)
    (ho : other.pathFor otherTarget otherReference = .ok otherPath)
    (hne : target = otherTarget → reference = otherReference → reference.kind = .template ∧
      search.view ≠ other.view) :
    path.Diverges otherPath := by
  rw [RegistryPath.Diverges, segments_of_pathFor h, segments_of_pathFor ho]
  constructor
  · intro hp
    obtain ⟨ht, hr, hv⟩ := Reference.eq_of_segments_prefix hp
    obtain ⟨hk, hview⟩ := hne ht hr
    exact hview (hv hk)
  · intro hp
    obtain ⟨ht, hr, hv⟩ := Reference.eq_of_segments_prefix hp
    obtain ⟨hk, hview⟩ := hne ht.symm hr.symm
    exact hview (hv (hr ▸ hk)).symm

/-- A place belongs to one reference only, and that of a template to one view. -/
theorem eq_of_pathFor {other : Search} {target otherTarget : BuildTarget}
    {reference otherReference : Reference} {path : RegistryPath}
    (h : search.pathFor target reference = .ok path)
    (ho : other.pathFor otherTarget otherReference = .ok path) :
    target = otherTarget ∧ reference = otherReference ∧
      (reference.kind = .template → search.view = other.view) := by
  apply Reference.eq_of_segments_prefix
  rw [← segments_of_pathFor h, ← segments_of_pathFor ho]

/-- Two places are the same or far apart. -/
theorem eq_or_diverges_of_pathFor {other : Search} {target otherTarget : BuildTarget}
    {reference otherReference : Reference} {path place : RegistryPath}
    (h : search.pathFor target reference = .ok path)
    (ho : other.pathFor otherTarget otherReference = .ok place) :
    path = place ∨ path.Diverges place := by
  by_cases hsame : path.segments = place.segments
  · obtain ⟨segments, _, _⟩ := path
    obtain ⟨otherSegments, _, _⟩ := place
    obtain rfl : segments = otherSegments := hsame
    exact .inl rfl
  · refine .inr (diverges_of_pathFor h ho fun ht hr => ?_)
    subst ht hr
    rw [segments_of_pathFor h, segments_of_pathFor ho] at hsame
    obtain ⟨kind, name⟩ := reference
    cases kind with
    | template => exact ⟨rfl, fun hview => hsame (by rw [hview])⟩
    | layout => exact absurd rfl hsame

end Search

/-! ## Reading back -/

/-- The object of a fragment says all of it. -/
theorem Fragment.ofDocument?_toJson (fragment : Fragment) :
    ofDocument? (.ofJson fragment.toJson) = some fragment :=
  rfl

theorem Registry.getAs_fragment {registry : Registry} {path : RegistryPath} {fragment : Fragment}
    (h : registry.get? path = some fragment.toJson) :
    registry.getAs (fun value => Fragment.ofDocument? (.ofJson value)) path = .ok (some fragment) :=
  getAs_of_get? h rfl fragment.ofDocument?_toJson

/-! ## Storing -/

namespace Search

variable {search : Search}

/-- Storing the fragment of a reference sets this path. -/
def Writes (search : Search) (reference : Reference) (path : RegistryPath) : Prop :=
  search.path reference = .ok path ∨
    ∃ target, search.mirror? reference = some target ∧ search.pathFor target reference = .ok path

theorem mirror?_ne {reference : Reference} {target : BuildTarget}
    (h : search.mirror? reference = some target) : target ≠ search.config.buildTarget := by
  obtain ⟨kind, name⟩ := reference
  cases kind with
  | template => cases h
  | layout =>
    simp only [mirror?, Config.mirrorTarget, Option.ite_none_right_eq_some] at h
    rw [← Option.some.inj h.2]
    exact BuildTarget.other_ne _

theorem mirror?_eq_some_iff {reference : Reference} {target : BuildTarget} :
    search.mirror? reference = some target ↔ reference.kind = .layout ∧
      search.config.langTarget = .both ∧ target = search.config.buildTarget.other := by
  obtain ⟨kind, name⟩ := reference
  cases kind <;> simp [mirror?, Config.mirrorTarget, eq_comm]

theorem store_eq_set {registry : Registry} {reference : Reference} {path : RegistryPath}
    {fragment : Fragment} (h : search.mirror? reference = none) :
    search.store registry path reference fragment = registry.set path fragment.toJson := by
  simp [store, h]

theorem store_eq_set_set {registry : Registry} {reference : Reference} {path other : RegistryPath}
    {fragment : Fragment} {target : BuildTarget} (h : search.mirror? reference = some target)
    (ho : search.pathFor target reference = .ok other) :
    search.store registry path reference fragment =
      (registry.set path fragment.toJson).set other fragment.toJson := by
  simp [store, h, ho]

theorem exists_mirror_path {reference : Reference} {path : RegistryPath} (target : BuildTarget)
    (h : search.path reference = .ok path) : ∃ other, search.pathFor target reference = .ok other :=
  exists_pathFor_iff.2 (exists_pathFor_iff.1 ⟨path, h⟩)

theorem get?_store {registry : Registry} {reference : Reference} {path written : RegistryPath}
    {fragment : Fragment} (h : search.path reference = .ok path)
    (hw : search.Writes reference written) :
    (search.store registry path reference fragment).get? written = some fragment.toJson := by
  cases hm : search.mirror? reference with
  | none =>
    rw [store_eq_set hm]
    rcases hw with hw | ⟨target, ht, -⟩
    · obtain rfl := Except.ok.inj (h.symm.trans hw)
      exact Registry.get?_set_self ..
    · rw [hm] at ht
      cases ht
  | some target =>
    obtain ⟨other, ho⟩ := exists_mirror_path target h
    rw [store_eq_set_set hm ho]
    rcases hw with hw | ⟨target', ht, hw⟩
    · obtain rfl := Except.ok.inj (h.symm.trans hw)
      rw [Registry.get?_set_of_diverges, Registry.get?_set_self]
      exact diverges_of_pathFor ho h fun ht => absurd ht (mirror?_ne hm)
    · obtain rfl := Option.some.inj (hm.symm.trans ht)
      obtain rfl := Except.ok.inj (ho.symm.trans hw)
      exact Registry.get?_set_self ..

theorem get?_store_of_diverges {registry : Registry} {reference : Reference}
    {path other : RegistryPath} {fragment : Fragment} (h : search.path reference = .ok path)
    (hd : ∀ written, search.Writes reference written → written.Diverges other) :
    (search.store registry path reference fragment).get? other = registry.get? other := by
  have hpath := hd path (.inl h)
  cases hm : search.mirror? reference with
  | none => rw [store_eq_set hm, Registry.get?_set_of_diverges _ _ hpath]
  | some target =>
    obtain ⟨mirror, ho⟩ := exists_mirror_path target h
    rw [store_eq_set_set hm ho, Registry.get?_set_of_diverges _ _ (hd mirror (.inr ⟨target, hm, ho⟩)),
      Registry.get?_set_of_diverges _ _ hpath]

theorem Writes.exists_pathFor {reference : Reference} {path : RegistryPath}
    (h : search.Writes reference path) : ∃ target, search.pathFor target reference = .ok path := by
  rcases h with h | ⟨target, -, h⟩
  · exact ⟨_, h⟩
  · exact ⟨target, h⟩

/-- What one reference writes never meets what another one writes. -/
theorem Writes.diverges {reference other : Reference} {path otherPath : RegistryPath}
    (h : search.Writes reference path) (ho : search.Writes other otherPath)
    (hne : reference ≠ other) : path.Diverges otherPath := by
  obtain ⟨target, h⟩ := h.exists_pathFor
  obtain ⟨otherTarget, ho⟩ := ho.exists_pathFor
  exact diverges_of_pathFor h ho fun _ he => absurd he hne

/-- Who asks does not matter for where a layout is stored, and for a template only the view. -/
theorem Writes.of_meet {other : Search} {reference otherReference : Reference}
    {path place : RegistryPath} (hconfig : search.config = other.config)
    (h : search.Writes reference path) (ho : other.Writes otherReference path)
    (hplace : search.Writes reference place) : other.Writes otherReference place := by
  obtain ⟨_, hpath⟩ := h.exists_pathFor
  obtain ⟨_, hopath⟩ := ho.exists_pathFor
  obtain ⟨-, rfl, hview⟩ := eq_of_pathFor hpath hopath
  have hpathFor : ∀ side, search.pathFor side reference = other.pathFor side reference := by
    intro side
    rw [pathFor_eq, pathFor_eq]
    obtain ⟨kind, name⟩ := reference
    cases kind with
    | template => rw [hview rfl]
    | layout => rfl
  rcases hplace with hplace | ⟨side, hside, hplace⟩
  · rw [Search.path, hconfig, hpathFor] at hplace
    exact .inl hplace
  · rw [mirror?_eq_some_iff, hconfig, ← mirror?_eq_some_iff] at hside
    rw [hpathFor] at hplace
    exact .inr ⟨side, hside, hplace⟩

theorem get?_store_of_not_writes {other : Search} {target : BuildTarget}
    {reference otherReference : Reference} {registry : Registry} {fragment : Fragment}
    {path place : RegistryPath} (h : search.path reference = .ok path)
    (hplace : other.pathFor target otherReference = .ok place)
    (hw : ¬ search.Writes reference place) :
    (search.store registry path reference fragment).get? place = registry.get? place := by
  refine get?_store_of_diverges h fun written hwritten => ?_
  obtain ⟨side, hside⟩ := hwritten.exists_pathFor
  rcases eq_or_diverges_of_pathFor hside hplace with rfl | hd
  · exact absurd hwritten hw
  · exact hd

end Search

end ViewBuilder
