import Mathlib.Data.List.Sublists
import ViewBuilder.Proofs.Placeholders.Bracket

/-!
# Placeholders between hash signs

A placeholder between hash signs opens and closes with the same signs. So the text between two
placeholders looks like one as well, and if it is a key whose turn comes before theirs, its value
is put there, with the signs of its neighbours gone. When no text between placeholders is such a
key, the two forms give the same text; this is also the only way in which a form is replaced where
no placeholder was written.
-/

namespace ViewBuilder.Placeholders

open Text

variable {key other value : Text} {parts middle behind : List Part} {changes : List Change}

/-! ## The first placeholder -/

theorem hash_append (key t : Text) :
    hash key ++ t = '#' :: '#' :: '#' :: (key ++ '#' :: '#' :: '#' :: t) := by
  unfold hash
  simp

theorem hash_eq (key : Text) : hash key = '#' :: '#' :: '#' :: (key ++ ['#', '#', '#']) := by
  rw [← hash_append, List.append_nil]

theorem exists_first_token (parts : List Part) : (∀ key, .token key ∉ parts) ∨
    ∃ middle b behind, parts = middle ++ .token b :: behind ∧ ∀ key, .token key ∉ middle := by
  induction parts with
  | nil => exact .inl fun _ => List.not_mem_nil
  | cons part rest ih =>
    cases part with
    | token b => exact .inr ⟨[], b, rest, rfl, fun _ => List.not_mem_nil⟩
    | literal t =>
      rcases ih with hnone | ⟨middle, b, behind, rfl, hmiddle⟩
      · exact .inl fun key => by simpa using hnone key
      · exact .inr ⟨.literal t :: middle, b, behind, rfl, fun key => by simpa using hmiddle key⟩

theorem hash_sign_not_mem_write (hparts : ∀ part ∈ parts, part.Plain)
    (hnone : ∀ key, .token key ∉ parts) (form : Text → Text) : '#' ∉ write form parts := by
  refine not_mem_write fun part hpart => ?_
  cases part with
  | literal t => exact (hparts _ hpart).2.2
  | token key => exact absurd hpart (hnone key)

/-- A text stands before a placeholder, and before it there is none. -/
def Stands (t : Text) (parts : List Part) : Prop :=
  ∃ middle b behind, parts = middle ++ .token b :: behind ∧ (∀ key, .token key ∉ middle) ∧
    write hash middle = t

theorem stands_of_begins {w : Text} (hkey : '#' ∉ key) (hparts : ∀ part ∈ parts, part.Plain)
    (h : key ++ '#' :: w <+: write hash parts) : Stands key parts := by
  rcases exists_first_token parts with hnone | ⟨middle, b, behind, rfl, hmiddle⟩
  · have hmem : '#' ∈ write hash parts := h.subset (by simp)
    exact absurd hmem (hash_sign_not_mem_write hparts hnone hash)
  · rw [List.forall_mem_append] at hparts
    have hlead := hash_sign_not_mem_write hparts.1 hmiddle hash
    rw [write_append, write_cons, Part.text, hash_append, prefix_around_iff hkey hlead] at h
    exact ⟨middle, b, behind, rfl, hmiddle, h.1.symm⟩

/-- Hash signs come by threes. -/
theorem exists_eq_of_hash_sign_prefix {w : Text} (hparts : ∀ part ∈ parts, part.Plain)
    (h : '#' :: w <+: write hash parts) : ∃ t, write hash parts = '#' :: '#' :: '#' :: t := by
  have hnothing : [] ++ '#' :: w <+: write hash parts := h
  obtain ⟨middle, b, behind, rfl, -, hempty⟩ :=
    stands_of_begins List.not_mem_nil hparts hnothing
  rw [write_append, hempty, List.nil_append, write_cons, Part.text, hash_append]
  exact ⟨_, rfl⟩

/-! ## One form -/

/-- The form of a key can be read across two placeholders, the first of which is not its own. -/
inductive Straddles (key : Text) : List Part → Prop where
  | here {other : Text} {rest : List Part} :
      other ≠ key → Stands key rest → Straddles key (.token other :: rest)
  | later {part : Part} {rest : List Part} : Straddles key rest → Straddles key (part :: rest)

theorem straddles_literal_iff {t : Text} :
    Straddles key (.literal t :: parts) ↔ Straddles key parts := by
  constructor
  · intro h
    cases h with
    | later h => exact h
  · exact .later

theorem straddles_token_iff :
    Straddles key (.token other :: parts) ↔
      (other ≠ key ∧ Stands key parts) ∨ Straddles key parts := by
  constructor
  · intro h
    cases h with
    | here hne h => exact .inl ⟨hne, h⟩
    | later h => exact .inr h
  · rintro (⟨hne, h⟩ | h)
    · exact .here hne h
    · exact .later h

theorem straddles_iff : Straddles key parts ↔ ∃ front a middle b behind,
    parts = front ++ .token a :: (middle ++ .token b :: behind) ∧ a ≠ key ∧
      (∀ other, .token other ∉ middle) ∧ write hash middle = key := by
  constructor
  · intro h
    induction h with
    | here hne h =>
      obtain ⟨middle, b, behind, rfl, hmiddle⟩ := h
      exact ⟨[], _, middle, b, behind, rfl, hne, hmiddle⟩
    | @later part rest _ ih =>
      obtain ⟨front, a, middle, b, behind, rfl, h⟩ := ih
      exact ⟨part :: front, a, middle, b, behind, rfl, h⟩
  · rintro ⟨front, a, middle, b, behind, rfl, hne, hmiddle⟩
    induction front with
    | nil => exact .here hne ⟨middle, b, behind, rfl, hmiddle⟩
    | cons part front ih => exact .later ih

/-- Of another placeholder everything stays up to its closing signs. -/
theorem replaceAll_hash_opening (hkey : Plain key) (hother : Plain other) (hne : other ≠ key)
    (hnil : other ≠ []) (value t : Text) :
    replaceAll (hash key) value (hash other ++ t) =
      '#' :: '#' :: '#' :: (other ++ replaceAll (hash key) value ('#' :: '#' :: '#' :: t)) := by
  have hwhole : ¬ key ++ ['#', '#', '#'] <+: other ++ '#' :: '#' :: '#' :: t := by
    rw [prefix_around_iff hkey.2.2 hother.2.2]
    exact fun h => hne h.1.symm
  have hopening : ∀ w, ¬ '#' :: w <+: other ++ '#' :: '#' :: '#' :: t := by
    obtain ⟨c, more, rfl⟩ := List.exists_cons_of_ne_nil hnil
    intro w hbegin
    have hc := (List.cons_prefix_cons.1 hbegin).1
    exact hother.2.2 (hc ▸ List.mem_cons_self)
  rw [hash_append, hash_eq, replaceAll_three_signs hwhole (hopening _) (hopening _),
    replaceAll_append_of_not_mem hother.2.2]

/-- The closing signs stay too, unless the form can be read across them and the next placeholder. -/
theorem replaceAll_hash_closing (hkey : Plain key) (hnil : key ≠ [])
    (hparts : ∀ part ∈ parts, part.Plain) (h : ¬ Stands key parts) (value : Text) :
    replaceAll (hash key) value ('#' :: '#' :: '#' :: write hash parts) =
      '#' :: '#' :: '#' :: replaceAll (hash key) value (write hash parts) := by
  obtain ⟨c, more, rfl⟩ := List.exists_cons_of_ne_nil hnil
  have hc : c ≠ '#' := fun hsame => hkey.2.2 (hsame ▸ List.mem_cons_self)
  rw [hash_eq, replaceAll_three_signs]
  · exact fun hbegin => h (stands_of_begins hkey.2.2 hparts hbegin)
  · intro hbegin
    obtain ⟨t, ht⟩ := exists_eq_of_hash_sign_prefix hparts hbegin
    rw [ht, List.cons_append, List.cons_prefix_cons, List.cons_prefix_cons] at hbegin
    exact hc hbegin.2.1
  · intro hbegin
    obtain ⟨t, ht⟩ := exists_eq_of_hash_sign_prefix hparts hbegin
    rw [ht, List.cons_append, List.cons_prefix_cons, List.cons_prefix_cons,
      List.cons_prefix_cons] at hbegin
    exact hc hbegin.2.2.1

/-- Where the form can be read, its value comes right behind the name of the placeholder. -/
theorem replaceAll_hash_straddling (hkey : Plain key) (hvalue : Plain value)
    (hparts : ∀ part ∈ parts, part.Plain) (hnames : ∀ other, .token other ∈ parts → other ≠ [])
    (h : Stands key parts) (t : Text) :
    replaceAll (hash key) value ('#' :: '#' :: '#' :: write hash parts) ≠ '#' :: t := by
  obtain ⟨middle, b, behind, rfl, -, rfl⟩ := h
  have hb : Plain b := hparts (.token b) (by simp)
  have htext : '#' :: '#' :: '#' :: write hash (middle ++ .token b :: behind) =
      hash (write hash middle) ++ (b ++ '#' :: '#' :: '#' :: write hash behind) := by
    rw [write_append, write_cons, Part.text, hash_append, hash_append]
  rw [htext, replaceAll_append_self (hash_ne_nil _), hash_eq, replaceAll_append_of_not_mem hb.2.2,
    ← List.append_assoc]
  have hne : value ++ b ≠ [] := by simp [hnames b (by simp)]
  obtain ⟨c, more, hmore⟩ := List.exists_cons_of_ne_nil hne
  have hmem : c ∈ value ++ b := by rw [hmore]; exact List.mem_cons_self
  rw [hmore, List.cons_append]
  intro hsame
  obtain rfl := (List.cons.inj hsame).1
  rcases List.mem_append.1 hmem with hc | hc
  · exact hvalue.2.2 hc
  · exact hb.2.2 hc

/-- Replacing a form puts in the values of exactly its own placeholders, unless it can be read
across two others. -/
theorem replaceAll_hash_iff (hkey : Plain key) (hnil : key ≠ []) (hvalue : Plain value)
    (hparts : ∀ part ∈ parts, part.Plain) (hnames : ∀ other, .token other ∈ parts → other ≠ []) :
    replaceAll (hash key) value (write hash parts) =
        write hash (parts.map (Part.fill (only key value))) ↔
      ¬ Straddles key parts := by
  induction parts with
  | nil => exact iff_of_true (replaceAll_nil (hash_ne_nil key) value) nofun
  | cons part rest ih =>
    obtain ⟨hpart, hrest⟩ := List.forall_mem_cons.1 hparts
    have ih := ih hrest fun other hmem => hnames other (List.mem_cons_of_mem _ hmem)
    rw [write_cons, List.map_cons, write_cons]
    cases part with
    | literal t =>
      have hskip : replaceAll (hash key) value (t ++ write hash rest) =
          t ++ replaceAll (hash key) value (write hash rest) :=
        replaceAll_append_of_not_mem hpart.2.2 value _
      rw [straddles_literal_iff, ← ih, Part.text, hskip]
      exact List.append_right_inj t
    | token other =>
      rw [straddles_token_iff, Part.text, Part.fill]
      by_cases hother : other = key
      · have hown : ¬ (other ≠ key ∧ Stands key rest) := fun h => h.1 hother
        rw [or_iff_right hown, ← ih, hother, replaceAll_append_self (hash_ne_nil key), only_self]
        exact List.append_right_inj value
      · rw [only_of_ne hother, replaceAll_hash_opening hkey hpart hother (hnames other (by simp)),
          Part.text, hash_append]
        by_cases hstands : Stands key rest
        · -- The closing signs are gone, and the text that comes in does not begin with any.
          refine iff_of_false (fun hsame => ?_) fun h => h (.inl ⟨hother, hstands⟩)
          simp only [List.cons.injEq, true_and, List.append_right_inj] at hsame
          exact replaceAll_hash_straddling hkey hvalue hrest
            (fun other hmem => hnames other (List.mem_cons_of_mem _ hmem)) hstands _ hsame
        · rw [replaceAll_hash_closing hkey hnil hrest hstands]
          simp only [List.cons.injEq, true_and, List.append_right_inj, hstands, and_false, false_or]
          exact ih

/-! ## All forms -/

theorem bracket_not_in_write (hparts : ∀ part ∈ parts, part.Plain) (key : Text) :
    ¬ bracket key <:+: write hash parts :=
  not_infix_write (c := '[') fun part hpart =>
    (hparts part hpart).not_mem_text (fun _ ht => ht.1) fun key hkey => by
      simpa [hash] using hkey

/-- The parts once the forms of a list had their turn. -/
def filled (forms : List (Text × Text)) (parts : List Part) : List Part :=
  parts.map (Part.fill fun key => Table.get?In (hash key) forms)

theorem filled_concat (forms : List (Text × Text)) (form value : Text) (parts : List Part) :
    filled (forms ++ [(form, value)]) parts = (filled forms parts).map
      (Part.fill fun key => if form = hash key then some value else none) := by
  unfold filled
  rw [List.map_map]
  congr 1
  funext part
  rw [Function.comp_apply, Part.fill_fill]
  congr 1
  funext key
  rw [Table.get?In_append, Table.get?In, Table.get?In]

theorem filled_bracket (forms : List (Text × Text)) (key value : Text) (parts : List Part) :
    filled (forms ++ [(bracket key, value)]) parts = filled forms parts := by
  rw [filled_concat]
  have hnone : (fun other => if bracket key = hash other then some value else none) =
      fun _ => none := funext fun other => if_neg (bracket_ne_hash key other)
  rw [hnone, Part.fill_none, List.map_id]

theorem filled_hash (forms : List (Text × Text)) (key value : Text) (parts : List Part) :
    filled (forms ++ [(hash key, value)]) parts =
      (filled forms parts).map (Part.fill (only key value)) := by
  rw [filled_concat]
  congr 2
  funext other
  simp only [only, hash_inj, eq_comm]

theorem mem_of_token_mem_filled {forms : List (Text × Text)}
    (h : .token key ∈ filled forms parts) : .token key ∈ parts := by
  obtain ⟨part, hpart, hfill⟩ := List.mem_map.1 h
  cases part with
  | literal t => cases hfill
  | token other =>
    rw [Part.fill] at hfill
    split at hfill
    · cases hfill
    · exact hfill ▸ hpart

theorem plain_filled {forms : List (Text × Text)} (hforms : ∀ entry ∈ forms, PlainForm entry)
    (hparts : ∀ part ∈ parts, part.Plain) : ∀ part ∈ filled forms parts, part.Plain := by
  refine List.forall_mem_map.2 fun part hpart => (hparts part hpart).fill fun key value h => ?_
  rw [Table.get?In_eq_get?] at h
  obtain ⟨_, -, -, hvalue⟩ := hforms _ (Entries.mem_of_get? h)
  exact hvalue

theorem replaceForms_concat (forms : List (Text × Text)) (entry : Text × Text) (t : Text) :
    replaceForms (forms ++ [entry]) t = replaceAll entry.1 entry.2 (replaceForms forms t) :=
  List.foldl_concat ..

/-- Each turn puts in values, as long as no form is read across two placeholders at its turn. -/
theorem replaceForms_write_hash_iff {forms : List (Text × Text)}
    (hforms : ∀ entry ∈ forms, PlainForm entry)
    (hnil : ∀ key value, (hash key, value) ∈ forms → key ≠ [])
    (hparts : ∀ part ∈ parts, part.Plain) (hnames : ∀ other, .token other ∈ parts → other ≠ []) :
    (∀ before after, forms = before ++ after →
        replaceForms before (write hash parts) = write hash (filled before parts)) ↔
      ∀ before key value after, forms = before ++ (hash key, value) :: after →
        ¬ Straddles key (filled before parts) := by
  have hturn : ∀ before key value after, forms = before ++ (hash key, value) :: after →
      (replaceAll (hash key) value (write hash (filled before parts)) =
          write hash (filled (before ++ [(hash key, value)]) parts) ↔
        ¬ Straddles key (filled before parts)) := by
    intro before key value after heq
    have hmem : (hash key, value) ∈ forms := by simp [heq]
    have hbefore : ∀ entry ∈ before, PlainForm entry := fun entry h =>
      hforms entry (by simp [heq, h])
    obtain ⟨other, hform | hform, hkey, hvalue⟩ := hforms _ hmem
    · exact absurd hform.symm (bracket_ne_hash other key)
    · rw [← hash_inj.1 hform] at hkey
      rw [filled_hash]
      exact replaceAll_hash_iff hkey (hnil key value hmem) hvalue (plain_filled hbefore hparts)
        fun other h => hnames other (mem_of_token_mem_filled h)
  constructor
  · intro h before key value after heq
    have hnext : forms = (before ++ [(hash key, value)]) ++ after := by simp [heq]
    rw [← hturn before key value after heq, ← h before _ heq, ← h _ after hnext,
      replaceForms_concat]
  · -- From one turn to the next, so on the list of turns from its end.
    intro h before
    induction before using List.reverseRecOn with
    | nil =>
      intro after _
      have hnone : (fun key => Table.get?In (hash key) ([] : List (Text × Text))) =
        fun _ => none := rfl
      rw [filled, hnone, Part.fill_none, List.map_id]
      rfl
    | append_singleton before entry ih =>
      intro after heq
      obtain ⟨form, value⟩ := entry
      rw [List.append_assoc, List.singleton_append] at heq
      rw [replaceForms_concat, ih _ heq]
      obtain ⟨key, rfl | rfl, -⟩ := hforms (form, value) (by simp [heq])
      · have hbefore : ∀ entry ∈ before, PlainForm entry := fun entry h =>
          hforms entry (by simp [heq, h])
        rw [filled_bracket,
          replaceAll_eq_self (bracket_not_in_write (plain_filled hbefore hparts) key)]
      · exact (hturn before key value after heq).2 (h before key value after heq)

/-! ## The order of the forms -/

/-- The values of the keys whose forms come before a form. -/
def earlier (p : Placeholders) (form : Text) (key : Text) : Option Text :=
  if hash key < form then p.get? key else none

/-- What stands between two placeholders is a key once the values are put in, and its form comes
behind those of the placeholders in between but before that of the first, and not behind that of
the second. -/
def Clashes (p : Placeholders) (parts : List Part) : Prop :=
  ∃ front a middle b behind, parts = front ++ .token a :: (middle ++ .token b :: behind) ∧
    p.contains (write p.get middle) ∧
    (∀ key, .token key ∈ middle → hash key < hash (write p.get middle)) ∧
    hash (write p.get middle) < hash a ∧ ¬ hash b < hash (write p.get middle)

section

variable {p : Placeholders} {form : Text}

theorem Paired.filled_eq (h : p.Paired) {before after : List (Text × Text)} {value : Text}
    (heq : p.forms.entries = before ++ (form, value) :: after) :
    filled before parts = parts.map (Part.fill (p.earlier form)) := by
  have hsorted := p.forms.sorted
  rw [heq, List.pairwise_append, List.pairwise_cons] at hsorted
  obtain ⟨-, ⟨hbehind, -⟩, hfront⟩ := hsorted
  unfold filled
  congr 2
  funext key
  rw [earlier, ← h.get?_hash, Table.get?, heq, Table.get?In_append]
  split
  · rename_i hless
    have hnone : Table.get?In (hash key) ((form, value) :: after) = none := by
      rw [Table.get?In_eq_get?, Entries.get?_eq_none_iff, Entries.keys, List.map_cons,
        List.mem_cons, not_or, List.mem_map]
      refine ⟨fun hsame : hash key = form => List.lt_irrefl form (hsame ▸ hless), ?_⟩
      rintro ⟨entry, hmem, hsame⟩
      exact List.lt_asymm hless (hsame ▸ hbehind entry hmem)
    rw [hnone, Option.or_none]
  · rename_i hless
    rw [Table.get?In_eq_get?, Entries.get?_eq_none_iff, Entries.keys, List.mem_map]
    rintro ⟨entry, hmem, hsame⟩
    exact hless (hsame ▸ hfront entry hmem (form, value) List.mem_cons_self)

theorem fill_earlier_eq_token_iff {part : Part} {a : Text}
    (hkeys : ∀ key, .token key ∈ parts → p.contains key) (hpart : part ∈ parts) :
    part.fill (p.earlier form) = .token a ↔ part = .token a ∧ ¬ hash a < form := by
  cases part with
  | literal t => simp [Part.fill]
  | token key =>
    obtain ⟨value, hvalue⟩ := Option.isSome_iff_exists.1 (hkeys key hpart)
    rw [Part.fill, earlier, hvalue]
    split
    · rename_i hfound
      split at hfound
      · rename_i hless
        simp only [reduceCtorEq, Part.token.injEq, false_iff, not_and, not_not]
        exact fun h => h ▸ hless
      · cases hfound
    · rename_i hfound
      split at hfound
      · cases hfound
      · rename_i hless
        simp only [Part.token.injEq, iff_self_and]
        exact fun h => h ▸ hless

theorem write_fill_earlier (hkeys : ∀ key, .token key ∈ middle → p.contains key)
    (hless : ∀ key, .token key ∈ middle → hash key < form) :
    write hash (middle.map (Part.fill (p.earlier form))) = write p.get middle :=
  write_fill fun key hmem => by
    rw [earlier, if_pos (hless key hmem), get?_eq_some_get (hkeys key hmem)]

/-- At its turn a form is read across two placeholders just where the parts clash. -/
theorem Paired.exists_straddles_iff (h : p.Paired)
    (hkeys : ∀ key, .token key ∈ parts → p.contains key) :
    (∃ before key value after, p.forms.entries = before ++ (hash key, value) :: after ∧
      Straddles key (filled before parts)) ↔ Clashes p parts := by
  constructor
  · rintro ⟨before, key, value, after, heq, hstraddles⟩
    have hcontains : p.contains key := by
      have hmem : (hash key, value) ∈ p.forms.entries := by simp [heq]
      rw [contains, ← h.get?_hash, Table.mem_entries_iff.1 hmem]
      rfl
    rw [h.filled_eq heq, straddles_iff] at hstraddles
    -- The parts at this turn are those of the start with the earlier values in: go back to them.
    obtain ⟨front', a, middle', b, behind', hmap, hne, hnone, hwrite⟩ := hstraddles
    obtain ⟨front, fromFirst, rfl, -, hfromFirst⟩ := List.map_eq_append_iff.1 hmap
    obtain ⟨first, rest, rfl, hfirst, hrest⟩ := List.map_eq_cons_iff.1 hfromFirst
    obtain ⟨middle, fromSecond, rfl, rfl, hfromSecond⟩ := List.map_eq_append_iff.1 hrest
    obtain ⟨second, behind, rfl, hsecond, -⟩ := List.map_eq_cons_iff.1 hfromSecond
    obtain ⟨rfl, ha⟩ := (fill_earlier_eq_token_iff hkeys (by simp)).1 hfirst
    obtain ⟨rfl, hb⟩ := (fill_earlier_eq_token_iff hkeys (by simp)).1 hsecond
    have hmiddle : ∀ other, .token other ∈ middle → p.contains other := fun other hmem =>
      hkeys other (by simp [hmem])
    have hless : ∀ other, .token other ∈ middle → hash other < hash key := by
      intro other hmem
      by_contra hlate
      apply hnone other
      refine List.mem_map.2 ⟨.token other, hmem, ?_⟩
      exact (fill_earlier_eq_token_iff hmiddle hmem).2 ⟨rfl, hlate⟩
    rw [write_fill_earlier hmiddle hless] at hwrite
    subst hwrite
    refine ⟨front, a, middle, b, behind, rfl, hcontains, hless, ?_, hb⟩
    exact (List.le_iff_lt_or_eq.1 (List.not_lt.1 ha)).resolve_right fun hsame =>
      hne (hash_inj.1 hsame).symm
  · rintro ⟨front, a, middle, b, behind, rfl, hcontains, hless, ha, hb⟩
    obtain ⟨value, hvalue⟩ := Option.isSome_iff_exists.1 hcontains
    rw [← h.get?_hash] at hvalue
    obtain ⟨before, after, heq⟩ := List.append_of_mem (Table.mem_entries_iff.2 hvalue)
    refine ⟨before, _, value, after, heq, ?_⟩
    have hmiddle : ∀ other, .token other ∈ middle → p.contains other := fun other hmem =>
      hkeys other (by simp [hmem])
    have hfirst := (fill_earlier_eq_token_iff hkeys (by simp)).2 ⟨rfl, List.lt_asymm ha⟩
    have hsecond := (fill_earlier_eq_token_iff hkeys (by simp)).2 ⟨rfl, hb⟩
    rw [h.filled_eq heq, straddles_iff, List.map_append, List.map_cons, List.map_append,
      List.map_cons, hfirst, hsecond]
    refine ⟨_, a, _, b, _, rfl, fun hsame => ?_, fun other hmem => ?_,
      write_fill_earlier hmiddle hless⟩
    · exact List.lt_irrefl _ (hsame ▸ ha)
    · obtain ⟨part, hpart, hfill⟩ := List.mem_map.1 hmem
      obtain ⟨rfl, hlate⟩ := (fill_earlier_eq_token_iff hmiddle hpart).1 hfill
      exact hlate (hless other hpart)

end

/-! ## Updating -/

/-- With placeholders that all have values, updating the form in brackets puts in the values.
Updating the form with hash signs does so turn by turn just where the parts do not clash, and then
the two forms give the same text. -/
theorem update_hashed (hchanges : ∀ change ∈ changes, change.Plain ∧ change.key ≠ [])
    (hliterals : ∀ t, .literal t ∈ parts → Plain t)
    (hkeys : ∀ key, .token key ∈ parts → (built changes).contains key) :
    (built changes).update (write bracket parts) = write (built changes).get parts ∧
      ((∀ before after, (built changes).forms.entries = before ++ after →
          replaceForms before (write hash parts) = write hash (filled before parts)) ↔
        ¬ Clashes (built changes) parts) ∧
      (¬ Clashes (built changes) parts →
        (built changes).update (write hash parts) = write (built changes).get parts) := by
  have hpaired := paired_built changes
  have hset : ∀ key, (built changes).contains key → Plain key ∧ key ≠ [] := fun key hkey => by
    obtain ⟨hplain, hnil⟩ := hchanges _ (mem_of_get?_built (get?_eq_some_get hkey))
    exact ⟨hplain.1, hnil⟩
  have hparts : ∀ part ∈ parts, part.Plain := fun part hpart => by
    cases part with
    | literal t => exact hliterals t hpart
    | token key => exact (hset key (hkeys key hpart)).1
  have hforms : ∀ entry ∈ (built changes).forms.entries, PlainForm entry := fun _ =>
    plainForm_of_mem fun change hmem => (hchanges change hmem).1
  have hnil : ∀ key value, (hash key, value) ∈ (built changes).forms.entries → key ≠ [] := by
    intro key value hmem
    refine (hset key ?_).2
    rw [contains, ← hpaired.get?_hash, Table.mem_entries_iff.1 hmem]
    rfl
  have hturns : (∀ before after, (built changes).forms.entries = before ++ after →
      replaceForms before (write hash parts) = write hash (filled before parts)) ↔
        ¬ Clashes (built changes) parts := by
    rw [replaceForms_write_hash_iff hforms hnil hparts
      fun key hmem => (hset key (hkeys key hmem)).2, ← hpaired.exists_straddles_iff hkeys]
    simp only [not_exists, not_and]
  refine ⟨?_, hturns, fun hclash => ?_⟩
  · rw [update_write_bracket (fun change hmem => (hchanges change hmem).1) hparts,
      write_fill fun key hmem => get?_eq_some_get (hkeys key hmem)]
  · rw [hpaired.update_eq, hturns.2 hclash _ [] (List.append_nil _).symm]
    exact write_fill fun key hmem =>
      (hpaired.get?_hash key).trans (get?_eq_some_get (hkeys key hmem))

/-- Three keys, and values that are no keys. -/
def letters : List Change := [.set "a" "X", .set "b" "Y", .set "c" "Z"]

/-- Two placeholders side by side, and a third one behind them. -/
def adjacent : List Part := [.token "c", .token "a", .literal "-", .token "b"]

theorem not_clashes_adjacent : ¬ Clashes (built letters) adjacent := by
  rintro ⟨front, a, middle, b, behind, heq, hkey, -⟩
  have hpart : middle <:+: adjacent :=
    ⟨front ++ [.token a], .token b :: behind, by rw [heq]; simp⟩
  have hno : ∀ middle ∈ adjacent.sublists,
      (built letters).contains (write (built letters).get middle) = false := by
    decide +kernel
  rw [hno middle (List.mem_sublists.2 hpart.sublist)] at hkey
  cases hkey

theorem letters_plain : ∀ change ∈ letters, change.Plain ∧ change.key ≠ [] := by
  simp [letters, Change.Plain, Change.key, Plain]

theorem update_hashed_adjacent :
    (∀ change ∈ letters, change.Plain ∧ change.key ≠ []) ∧
      (∀ t, .literal t ∈ adjacent → Plain t) ∧
      (∀ key, .token key ∈ adjacent → (built letters).contains key) ∧
      ¬ Clashes (built letters) adjacent ∧
      (built letters).update "[[[c]]][[[a]]]-[[[b]]]" = "ZX-Y".toList ∧
      (built letters).update "###c######a###-###b###" = "ZX-Y".toList := by
  have hliterals : ∀ t, .literal t ∈ adjacent → Plain t := by
    simp [adjacent, Plain]
  have hkeys : ∀ key, .token key ∈ adjacent → (built letters).contains key := by
    simp only [adjacent, List.mem_cons, Part.token.injEq, reduceCtorEq, List.not_mem_nil, or_false,
      false_or, forall_eq_or_imp, forall_eq]
    decide
  obtain ⟨hbracket, -, hhash⟩ := update_hashed letters_plain hliterals hkeys
  exact ⟨letters_plain, hliterals, hkeys, not_clashes_adjacent, hbracket,
    hhash not_clashes_adjacent⟩

/-- A key between two other ones. -/
def crossed : List Part := [.token "b", .literal "a", .token "c"]

theorem clashes_crossed : Clashes (built letters) crossed := by
  refine ⟨[], "b", [.literal "a"], "c", [], rfl, by decide, ?_, by decide, by decide⟩
  intro key hkey
  simp at hkey

/-- The key between the two is taken for a placeholder, and its value goes where none is. -/
theorem update_hash_ne_update_bracket :
    (∀ change ∈ letters, change.Plain ∧ change.key ≠ []) ∧
      (∀ t, .literal t ∈ crossed → Plain t) ∧
      (∀ key, .token key ∈ crossed → (built letters).contains key) ∧
      Clashes (built letters) crossed ∧
      (built letters).update (write bracket crossed) = "YaZ".toList ∧
      (built letters).update (write hash crossed) = "###bXc###".toList ∧
      (built letters).update (write hash crossed) ≠
        (built letters).update (write bracket crossed) := by
  have hliterals : ∀ t, .literal t ∈ crossed → Plain t := by
    simp [crossed, Plain]
  have hkeys : ∀ key, .token key ∈ crossed → (built letters).contains key := by
    simp only [crossed, List.mem_cons, Part.token.injEq, reduceCtorEq, List.not_mem_nil, or_false,
      false_or, forall_eq_or_imp, forall_eq]
    decide
  exact ⟨letters_plain, hliterals, hkeys, clashes_crossed, by decide +kernel, by decide +kernel,
    by decide +kernel⟩

end ViewBuilder.Placeholders
