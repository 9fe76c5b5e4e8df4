import ViewBuilder.Proofs.Json.ReadBack
import ViewBuilder.Proofs.Resolver.Place
import ViewBuilder.Tab.Compile

/-!
# Stored tabs

Compiling the tabs of a view sets one path, which no template or layout is stored at. What is
stored there reads as the compiled tabs again.
-/

namespace ViewBuilder

/-! ## Where tabs are stored -/

theorem RegistryPath.customTabs_diverges {search : Search} {target : BuildTarget}
    {reference : Reference} {view : Text} {path tabs : RegistryPath}
    (hpath : search.pathFor target reference = .ok path)
    (htabs : RegistryPath.customTabs view = .ok tabs) : tabs.Diverges path := by
  rw [Diverges, segments_of_ofSegments htabs, Search.segments_of_pathFor hpath]
  obtain ⟨kind, name⟩ := reference
  cases kind with
  | template => simp [Reference.segments]
  | layout => simp [Reference.segments]

theorem Search.get?_customTabs_store {search : Search} {registry : Registry}
    {reference : Reference} {fragment : Fragment} {view : Text} {path tabs : RegistryPath}
    (hpath : search.path reference = .ok path) (htabs : RegistryPath.customTabs view = .ok tabs) :
    (search.store registry path reference fragment).get? tabs = registry.get? tabs := by
  refine get?_store_of_diverges hpath fun written hwritten => ?_
  obtain ⟨_, hplace⟩ := hwritten.exists_pathFor
  exact (RegistryPath.customTabs_diverges hplace htabs).symm

/-- The tabs of two views are stored apart. -/
theorem RegistryPath.customTabs_diverges_of_ne {view other : Text} {path place : RegistryPath}
    (hpath : RegistryPath.customTabs view = .ok path)
    (hplace : RegistryPath.customTabs other = .ok place) (hne : view ≠ other) :
    path.Diverges place := by
  rw [Diverges, segments_of_ofSegments hpath, segments_of_ofSegments hplace]
  simp [hne, hne.symm]

theorem RegistryPath.exists_customTabs_iff {view : Text} :
    (∃ path, RegistryPath.customTabs view = .ok path) ↔ view ≠ [] := by
  constructor
  · rintro ⟨path, hpath⟩
    have hne := path.segment_ne_nil view
    rw [segments_of_ofSegments hpath] at hne
    exact hne (by simp)
  · intro hview
    have hroot : root ≠ [] := by decide
    refine ⟨_, ofSegments_eq_ok (by simp) ?_⟩
    simp [hroot, hview]

theorem RegistryPath.customTabs_eq_error {view : Text} (h : view = []) :
    ∃ path reason, RegistryPath.customTabs view = .error (.invalidPath path reason) := by
  subst h
  exact ⟨_, _, rfl⟩

namespace TabContext

/-- What is stored for the tabs of a view. -/
def tabsJson (context : TabContext) (raws : List RawTab) : Json :=
  CustomTab.listToJson ((raws.map context.compileTab).map (·.tab))

/-- The language strings that the tabs of a view need. -/
def tabStrings (context : TabContext) (raws : List RawTab) : List (Text × Text) :=
  (raws.map context.compileTab).flatMap (·.strings)

end TabContext

theorem TabStore.compile_eq {context : TabContext} {raws : List RawTab} {path : RegistryPath}
    (store : TabStore) (hraws : raws ≠ [])
    (hpath : RegistryPath.customTabs context.view = .ok path) :
    store.compile context raws = .ok ⟨store.registry.set path (context.tabsJson raws),
      store.language.setAll (context.tabStrings raws)⟩ := by
  unfold TabStore.compile
  rw [if_neg fun hnil => hraws (List.isEmpty_iff.1 hnil), hpath]
  rfl

theorem TabStore.compile_of_no_path {context : TabContext} {raws : List RawTab} {failure : Failure}
    (store : TabStore) (hraws : raws ≠ [])
    (h : RegistryPath.customTabs context.view = .error failure) :
    store.compile context raws = .error failure := by
  unfold TabStore.compile
  rw [if_neg fun hnil => hraws (List.isEmpty_iff.1 hnil), h]
  rfl

/-- All that compiling tabs can do unless it fails. -/
theorem TabStore.compile_cases {store after : TabStore} {context : TabContext}
    {raws : List RawTab} (h : store.compile context raws = .ok after) :
    (raws = [] ∧ after = store) ∨
      (raws ≠ [] ∧ ∃ path, RegistryPath.customTabs context.view = .ok path ∧
        after = ⟨store.registry.set path (context.tabsJson raws),
          store.language.setAll (context.tabStrings raws)⟩) := by
  by_cases hraws : raws = []
  · subst hraws
    exact .inl ⟨rfl, (Except.ok.inj h).symm⟩
  · refine .inr ⟨hraws, ?_⟩
    cases hpath : RegistryPath.customTabs context.view with
    | error failure =>
      rw [store.compile_of_no_path hraws hpath] at h
      cases h
    | ok path =>
      rw [store.compile_eq hraws hpath] at h
      exact ⟨path, rfl, (Except.ok.inj h).symm⟩

/-! ## Reading tabs again -/

namespace TabPermission

theorem byteAt?_fields {p : TabPermission} (tab : CustomTab) (h : p.permission < 256) :
    byteAt? "permission" (tab.ownFields ++ p.fields) = some p.permission := by
  have hvalue : Entries.get? "permission".toList (tab.ownFields ++ p.fields) =
      some (.number (.integer p.permission)) := rfl
  have hrange : (0 : Int) ≤ p.permission ∧ (p.permission : Int) < 256 := by omega
  rw [byteAt?, hvalue]
  dsimp only
  rw [if_pos hrange, Int.toNat_natCast]

theorem ofFields?_fields {p : TabPermission} (tab : CustomTab) (h : p.permission < 256) :
    ofFields? (tab.ownFields ++ p.fields) = some p := by
  rw [ofFields?, byteAt?_fields tab h]
  rfl

end TabPermission

namespace CustomTab

/-- The permission of a tab is a number from 0 to 255. -/
def Writable (tab : CustomTab) : Prop := ∀ p ∈ tab.permission, p.permission < 256

theorem ofJson?_toJson {tab : CustomTab} (h : tab.Writable) : ofJson? tab.toJson = some tab := by
  have hpermission : TabPermission.ofFields?
      (tab.ownFields ++ (tab.permission.map TabPermission.fields).getD []) = tab.permission := by
    cases hp : tab.permission with
    | none => rfl
    | some p => exact TabPermission.ofFields?_fields tab (h p hp)
  change CustomTab.ofFields?
    (tab.ownFields ++ (tab.permission.map TabPermission.fields).getD []) = some tab
  rw [ofFields?, hpermission]
  rfl

theorem listOfJson?_listToJson {tabs : List CustomTab} (h : ∀ tab ∈ tabs, tab.Writable) :
    listOfJson? (listToJson tabs) = some tabs := by
  change (tabs.map toJson).mapM ofJson? = some tabs
  exact Json.mapM_map_eq_some fun tab hmem => ofJson?_toJson (h tab hmem)

end CustomTab

namespace TabContext

variable (context : TabContext)

theorem writable_compileTab (raw : RawTab) : (context.compileTab raw).tab.Writable := by
  intro p hp
  change p ∈ (if raw.guarded then some (context.permission (tabName raw)) else none) at hp
  split at hp
  · obtain rfl := Option.mem_some.1 hp
    change 1 < 256
    omega
  · cases hp

theorem listOfJson?_tabsJson (raws : List RawTab) :
    CustomTab.listOfJson? (context.tabsJson raws) =
      some ((raws.map context.compileTab).map (·.tab)) := by
  apply CustomTab.listOfJson?_listToJson
  rw [List.map_map, List.forall_mem_map]
  exact fun raw _ => context.writable_compileTab raw

end TabContext

end ViewBuilder
