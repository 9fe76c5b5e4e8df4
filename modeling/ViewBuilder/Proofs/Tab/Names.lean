import ViewBuilder.Proofs.Text.Canonical
import ViewBuilder.Tab.Compile

/-!
# The names of a tab

All identifiers of a compiled tab come from its name, its view and the label of the list. Its code
is never empty, its language key ends in the code in capitals, and the key that its permission is
sorted by has the code between words of its own.
-/

namespace ViewBuilder.TabContext

open Text Identifier

theorem tabName_eq (raw : RawTab) :
    tabName raw = (raw.name.filter fun name => name.any Char.isAlphanum).getD defaultName := by
  unfold tabName
  cases raw.name with
  | none => rfl
  | some name =>
    have hempty : (ofLabel .lower name).isEmpty = true ↔ ¬ name.any Char.isAlphanum = true := by
      rw [List.isEmpty_iff, ofLabel_eq_nil_iff, List.any_eq_true]
    dsimp only
    rw [Option.filter_some]
    by_cases hname : name.any Char.isAlphanum = true
    · rw [if_neg (mt hempty.1 (not_not_intro hname)), if_pos hname, Option.getD_some]
    · rw [if_pos (hempty.2 hname), if_neg hname, Option.getD_none]

theorem ofLabel_tabName_ne_nil (letters : LetterCase) (raw : RawTab) :
    ofLabel letters (tabName raw) ≠ [] := by
  rw [Ne, ofLabel_eq_nil_iff, not_not, tabName_eq]
  cases hname : raw.name.filter fun name => name.any Char.isAlphanum with
  | none => exact ⟨'T', by decide, by decide⟩
  | some name => exact List.any_eq_true.1 (Option.filter_eq_some_iff.1 hname).2

theorem viewLabel_eq (context : TabContext) (key : Text) :
    context.viewLabel key =
      ((context.placeholders.get? key).filter (· ≠ [])).getD context.view := by
  unfold viewLabel Placeholders.get
  cases context.placeholders.get? key with
  | none => rfl
  | some label =>
    rw [Option.getD_some, Option.filter_some]
    cases label with
    | nil => rfl
    | cons c label => rfl

theorem ofLabel_permissionTitle (context : TabContext) (name : Text) :
    ofLabel .lower (context.permissionTitle name) =
      join "_" ([ofLabel .lower (context.viewLabel "Views"), "view".toList, ofLabel .lower name,
        "tab".toList].filter (· ≠ [])) := by
  have hblank : ∀ c ∈ " ".toList, IsSeparator c := by
    intro c hc
    obtain rfl : c = ' ' := List.mem_singleton.1 hc
    exact .inl (by decide)
  have hsplit : context.viewLabel "Views" ++ " View " ++ name ++ " Tab" =
      context.viewLabel "Views" ++ " " ++
        ("View".toList ++ " " ++ (name ++ " " ++ "Tab".toList)) := by
    simp only [List.append_assoc]
    rfl
  have hwords : wordsOf (context.permissionTitle name) =
      [context.viewLabel "Views", "View".toList, name, "Tab".toList].flatMap wordsOf := by
    rw [permissionTitle, wordsOf_trim, hsplit, wordsOf_separated (by decide) hblank,
      wordsOf_separated (by decide) hblank, wordsOf_separated (by decide) hblank]
    simp
  have hview : ofLabel .lower "View" = "view".toList := by
    decide +kernel
  have htab : ofLabel .lower "Tab" = "tab".toList := by
    decide +kernel
  rw [ofLabel_eq_of_wordsOf hwords, List.map_cons, List.map_cons, List.map_cons, List.map_cons,
    List.map_nil, hview, htab]

/-- How the names of a compiled tab hang together, whatever its raw name, its view and the names
that placeholders stand for. The code is made of words in small letters, at least one; the name is
the raw one if that has a letter or a digit; the language key ends in the code in capitals; and a
guarded tab is sorted by the label of the list, or the view where no label is set, and the code. -/
theorem compileTab_names (context : TabContext) (raw : RawTab) :
    let tab := (context.compileTab raw).tab
    let label := ((context.placeholders.get? "Views").filter (· ≠ [])).getD context.view
    (tab.code ≠ [] ∧ ∃ words, tab.code = join "_" words ∧
      ∀ word ∈ words, word ≠ [] ∧ ∀ c ∈ word, c.isLower = true) ∧
    tab.name = (raw.name.filter fun name => name.any Char.isAlphanum).getD "Tab" ∧
    tab.lang = context.config.langPrefix ++ "_" ++ ofLabel .upper context.view ++ "_" ++
      tab.code.map Char.toUpper ∧
    tab.permission.map (·.sortKey) =
      if raw.guarded then
        some (join "_" ([ofLabel .lower label, "view".toList, tab.code, "tab".toList].filter
          (· ≠ [])))
      else none := by
  intro tab label
  have hcode : tab.code = ofLabel .lower (tabName raw) := rfl
  have hlang : tab.lang = context.langKey (tabName raw) := rfl
  have hpermission : tab.permission =
      if raw.guarded then some (context.permission (tabName raw)) else none := rfl
  have hcapitals : (ofLabel .lower (tabName raw)).map Char.toUpper = ofLabel .upper (tabName raw) :=
    map_apply_ofLabel .upper .lower (tabName raw)
  have hkey : (context.permission (tabName raw)).sortKey =
      ofLabel .lower (context.permissionTitle (tabName raw)) := by
    rw [permission]
  rw [ofLabel_permissionTitle, viewLabel_eq] at hkey
  rw [hcode, hlang, hpermission, hcapitals]
  refine ⟨⟨ofLabel_tabName_ne_nil .lower raw, exists_words_ofLabel .lower (tabName raw)⟩,
    tabName_eq raw, rfl, ?_⟩
  split
  · rw [Option.map_some, hkey]
  · rfl

end ViewBuilder.TabContext
