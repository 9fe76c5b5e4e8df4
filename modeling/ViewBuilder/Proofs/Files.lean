import ViewBuilder.Program
import ViewBuilder.Proofs.Writes

/-!
# Files that are read

A command reads the files that its command line names, one after the other up to the first that
cannot be read, and nothing else. So all of them may be read beforehand. In a directory, what is
read by a path is decided by the places that the path leads through: a file is read where it was put
last, and what is put elsewhere does not matter.
-/

namespace ViewBuilder

/-! ## What a command reads -/

/-- The files up to the first that cannot be read, that one included. -/
def FileReader.upTo (read : FileReader) : List Text → List Text
  | [] => []
  | path :: rest =>
    match read path with
    | .ok _ => path :: FileReader.upTo read rest
    | .error _ => [path]

namespace FileReader

variable {read : FileReader} {path t : Text} {paths rest : List Text}

theorem head_mem_upTo (read : FileReader) (path : Text) (rest : List Text) :
    path ∈ upTo read (path :: rest) := by
  rw [upTo]
  split
  · exact List.mem_cons_self
  · exact List.mem_cons_self

theorem mem_upTo_cons (h : read path = .ok t) {other : Text} (hmem : other ∈ upTo read rest) :
    other ∈ upTo read (path :: rest) := by
  rw [upTo, h]
  exact List.mem_cons_of_mem _ hmem

theorem mem_of_mem_upTo (h : path ∈ upTo read paths) : path ∈ paths := by
  induction paths with
  | nil => cases h
  | cons first rest ih =>
    rw [upTo] at h
    split at h
    · rcases List.mem_cons.1 h with rfl | hrest
      · exact List.mem_cons_self
      · exact List.mem_cons_of_mem _ (ih hrest)
    · rw [List.mem_singleton.1 h]
      exact List.mem_cons_self

theorem ofRead_map (h : path ∈ paths) :
    ofRead (paths.map fun path => (path, read path)) path = read path := by
  induction paths with
  | nil => cases h
  | cons first rest ih =>
    rw [ofRead, List.map_cons, Entries.get?]
    split
    · rename_i hfirst
      rw [hfirst, Option.getD_some]
    · rename_i hfirst
      exact ih ((List.mem_cons.1 h).resolve_left (Ne.symm hfirst))

end FileReader

namespace Program

open FileReader

variable {read other : FileReader} {purpose path t : Text} {paths : List Text}

theorem bind_congr_of_ok {ε α β : Type} {x : Except ε α} {f g : α → Except ε β}
    (h : ∀ a, x = .ok a → f a = g a) : (x >>= f) = (x >>= g) := by
  cases x with
  | error e => rfl
  | ok a => exact h a rfl

theorem read_of_readFile (h : readFile read purpose path = .ok t) : read path = .ok t := by
  rw [readFile] at h
  cases hread : read path with
  | error fault =>
    rw [hread] at h
    cases h
  | ok t' =>
    rw [hread] at h
    cases h
    rfl

theorem mapM_readFile_congr (h : ∀ path ∈ upTo read paths, other path = read path) :
    paths.mapM (readFile other purpose) = paths.mapM (readFile read purpose) := by
  induction paths with
  | nil => rfl
  | cons path rest ih =>
    rw [List.mapM_cons, List.mapM_cons, readFile, h path (head_mem_upTo read path rest), ← readFile]
    refine bind_congr_of_ok fun t ht => ?_
    rw [ih fun _ hmem => h _ (mem_upTo_cons (read_of_readFile ht) hmem)]

theorem configFor_congr {inline : Option Config} {config : Option Text}
    (h : ∀ path ∈ config, other path = read path) :
    configFor other config inline = configFor read config inline := by
  cases config with
  | none => cases inline <;> rfl
  | some path => simp only [configFor, readFile, h path rfl]

theorem read_of_configFor {inline : Option Config} {config : Config}
    (h : configFor read (some path) inline = .ok config) : ∃ t, read path = .ok t := by
  rw [configFor] at h
  cases hread : readFile read "compiler config from " path with
  | error trouble =>
    rw [hread] at h
    cases h
  | ok t => exact ⟨t, read_of_readFile hread⟩

theorem build_congr {config : Option Text} {priors : List Text}
    (h : ∀ named ∈ upTo read (path :: config.toList ++ priors), other named = read named) :
    build other config path priors = build read config path priors := by
  unfold build
  rw [readFile, h path (head_mem_upTo read path _), ← readFile]
  refine bind_congr_of_ok fun t ht => bind_congr_of_ok fun file _ => ?_
  have hrest : ∀ named ∈ upTo read (config.toList ++ priors), other named = read named :=
    fun _ hmem => h _ (mem_upTo_cons (read_of_readFile ht) hmem)
  -- Without a config file the priors come next; with one, only if that could be read.
  cases config with
  | none =>
    have hpriors : ∀ named ∈ upTo read priors, other named = read named := hrest
    have hconfig : configFor other none file.config = configFor read none file.config :=
      configFor_congr fun _ hnone => nomatch hnone
    rw [hconfig, mapM_readFile_congr hpriors]
  | some path =>
    have hpath := hrest path (head_mem_upTo read path priors)
    rw [configFor_congr fun _ hsame => Option.some.inj hsame ▸ hpath]
    refine bind_congr_of_ok fun config hconfig => ?_
    obtain ⟨t, ht⟩ := read_of_configFor hconfig
    have hpriors : ∀ named ∈ upTo read priors, other named = read named :=
      fun _ hmem => hrest _ (mem_upTo_cons ht hmem)
    rw [mapM_readFile_congr hpriors]

/-- What a command does is decided by its files, up to the first that cannot be read. -/
theorem perform_congr (color : Bool) {invocation : Invocation}
    (h : ∀ path ∈ upTo read invocation.files, other path = read path) :
    perform color other invocation = perform color read invocation := by
  obtain ⟨quiet, config, command⟩ := invocation
  cases command with
  | compile file priors format =>
    have hbuild : build other config file priors = build read config file priors := build_congr h
    simp only [perform, hbuild]
  | scan file format =>
    have hfile := h file (head_mem_upTo read file [])
    simp only [perform, scan, readFile, hfile]

/-- It makes no difference if all files are read before the command begins. -/
theorem perform_ofRead (color : Bool) (read : FileReader) (invocation : Invocation) :
    perform color (.ofRead (invocation.files.map fun path => (path, read path))) invocation =
      perform color read invocation :=
  perform_congr color fun _ hmem => ofRead_map (mem_of_mem_upTo hmem)

end Program

/-! ## Places on the way -/

namespace Place

/-- The places that a path leads through, both ends included. -/
def way (path : Text) : List Place := (start path).trail (names path)

theorem head_mem_trail (place : Place) (names : List Text) : place ∈ place.trail names := by
  cases names <;> exact List.mem_cons_self

theorem last_mem_trail (place : Place) (names : List Text) :
    names.foldl next place ∈ place.trail names := by
  induction names generalizing place with
  | nil => exact List.mem_cons_self
  | cons name rest ih => exact List.mem_cons_of_mem _ (ih (place.next name))

theorem ofPath_mem_way (path : Text) : ofPath path ∈ way path := last_mem_trail _ _

end Place

namespace Directory

open Place

variable {directory other : Directory} {place last : Place} {name path : Text}
  {names : List Text}

/-! ## Walking -/

theorem eq_next_of_step (h : directory.step place name = .ok last) : last = place.next name := by
  unfold step at h
  split at h
  · cases h
  · split at h
    · cases h
    · split at h
      · cases h
      · exact (Except.ok.inj h).symm

theorem eq_foldl_of_foldlM (h : names.foldlM directory.step place = .ok last) :
    last = names.foldl next place := by
  induction names generalizing place with
  | nil => exact (Except.ok.inj h).symm
  | cons name rest ih =>
    rw [List.foldlM_cons] at h
    cases hstep : directory.step place name with
    | error fault =>
      rw [hstep] at h
      cases h
    | ok further =>
      rw [hstep] at h
      obtain rfl := eq_next_of_step hstep
      exact ih h

theorem eq_ofPath_of_place (h : directory.place path = .ok place) : place = ofPath path := by
  unfold Directory.place at h
  split at h
  · cases h
  · split at h
    · cases h
    · exact eq_foldl_of_foldlM h

theorem foldlM_step_congr (h : ∀ on ∈ place.trail names, other.node? on = directory.node? on) :
    names.foldlM other.step place = names.foldlM directory.step place := by
  induction names generalizing place with
  | nil => rfl
  | cons name rest ih =>
    have hstep : other.step place name = directory.step place name := by
      rw [step, step, h place (head_mem_trail _ _),
        h (place.next name) (List.mem_cons_of_mem _ (head_mem_trail _ rest))]
    rw [List.foldlM_cons, List.foldlM_cons, hstep]
    refine Program.bind_congr_of_ok fun further hfurther => ?_
    obtain rfl := eq_next_of_step hfurther
    exact ih fun on hmem => h on (List.mem_cons_of_mem _ hmem)

theorem trail_ne_nil (place : Place) (names : List Text) : place.trail names ≠ [] :=
  List.ne_nil_of_mem (head_mem_trail place names)

/-- A way leads to its end if nothing on it is missing and only its end may be a file. -/
theorem foldlM_step_eq_ok
    (hfree : ∀ on ∈ (place.trail names).dropLast, ∀ bytes, directory.node? on ≠ some (.file bytes))
    (hthere : ∀ on ∈ place.trail names, (directory.node? on).isSome)
    (hnames : ∀ name ∈ names, byteLength name ≤ 255) :
    names.foldlM directory.step place = .ok (names.foldl next place) := by
  induction names generalizing place with
  | nil => rfl
  | cons name rest ih =>
    obtain ⟨hname, hrest⟩ := List.forall_mem_cons.1 hnames
    rw [trail, List.dropLast_cons_of_ne_nil (trail_ne_nil _ _)] at hfree
    obtain ⟨hhere, hlater⟩ := List.forall_mem_cons.1 hfree
    have hnext := hthere _ (List.mem_cons_of_mem _ (head_mem_trail (place.next name) rest))
    have hstep : directory.step place name = .ok (place.next name) := by
      unfold step
      split
      · rename_i bytes hfile
        exact absurd hfile (hhere bytes)
      · rw [if_neg (Nat.not_lt.2 hname), Option.isNone_eq_false_iff.2 hnext]
        rfl
    rw [List.foldlM_cons, hstep]
    exact ih hlater (fun on hmem => hthere on (List.mem_cons_of_mem _ hmem)) hrest

/-- What is read by a path is decided by what stands on the way. -/
theorem read_congr (h : ∀ on ∈ way path, other.node? on = directory.node? on) :
    other.read path = directory.read path := by
  have hplace : other.place path = directory.place path := by
    rw [Directory.place, Directory.place, foldlM_step_congr h]
  unfold Directory.read
  rw [hplace]
  cases hled : directory.place path with
  | error fault => rfl
  | ok place =>
    rw [eq_ofPath_of_place hled]
    dsimp only
    rw [h _ (ofPath_mem_way path)]

/-! ## What was put there -/

open Entries (last?)

variable {entries : List (Text × FileNode)} {node : FileNode} {bytes : ByteArray}

/-- The entries by their places. -/
def placed (entries : List (Text × FileNode)) : List (Place × FileNode) :=
  entries.map fun (path, node) => (ofPath path, node)

theorem placed_append (entries more : List (Text × FileNode)) :
    placed (entries ++ more) = placed entries ++ placed more :=
  List.map_append

/-- The places that the entries are reached through. -/
def crossed (entries : List (Text × FileNode)) : List Place :=
  entries.flatMap fun (path, _) => way path

theorem lookup_reverse (place : Place) (nodes : List (Place × FileNode)) :
    nodes.reverse.lookup place = last? place nodes := by
  induction nodes with
  | nil => rfl
  | cons entry rest ih =>
    obtain ⟨on, node⟩ := entry
    rw [List.reverse_cons, List.lookup_append, ih, last?]
    congr 1
    by_cases hon : on = place
    · rw [hon, List.lookup_cons_self, if_pos rfl]
    · rw [List.lookup_cons, beq_eq_false_iff_ne.2 (Ne.symm hon), if_neg hon]
      rfl

theorem lookup_map_directory (place : Place) (places : List Place) :
    (places.map fun on => (on, FileNode.directory)).lookup place =
      if place ∈ places then some .directory else none := by
  induction places with
  | nil => rfl
  | cons on rest ih =>
    rw [List.map_cons]
    by_cases hon : place = on
    · rw [hon, List.lookup_cons_self, if_pos List.mem_cons_self]
    · rw [List.lookup_cons, beq_eq_false_iff_ne.2 hon, ih]
      simp [hon]

theorem node?_ofEntries (entries : List (Text × FileNode)) (place : Place) :
    (ofEntries entries).node? place =
      ((last? place (placed entries)).or
        (if place ∈ crossed entries then some .directory else none)).or place.usual? := by
  have hplaced : (entries.reverse.map fun (path, node) => (ofPath path, node)) =
      (placed entries).reverse := List.map_reverse
  have hcrossed : (entries.flatMap fun (path, _) =>
      ((start path).trail (Place.names path)).map fun on => (on, FileNode.directory)) =
        (crossed entries).map fun on => (on, FileNode.directory) := by
    rw [crossed, List.map_flatMap]
    rfl
  rw [node?, ofEntries, hplaced, hcrossed, List.lookup_append, lookup_reverse,
    lookup_map_directory]

theorem node?_of_mem_crossed (h : place ∈ crossed entries) :
    (ofEntries entries).node? place = some ((last? place (placed entries)).getD .directory) := by
  rw [node?_ofEntries, if_pos h]
  cases last? place (placed entries) <;> rfl

theorem node?_concat (hplace : ofPath path ≠ place)
    (hcrossed : place ∈ way path → (ofEntries entries).node? place = some .directory) :
    (ofEntries (entries ++ [(path, node)])).node? place = (ofEntries entries).node? place := by
  have hplaced : last? place (placed (entries ++ [(path, node)])) = last? place (placed entries) := by
    rw [placed_append, Entries.last?_append, placed, List.map_singleton, last?, last?, if_neg hplace]
    rfl
  have hboth : place ∈ crossed (entries ++ [(path, node)]) ↔
      place ∈ crossed entries ∨ place ∈ way path := by
    simp [crossed]
  rw [node?_ofEntries] at hcrossed
  rw [node?_ofEntries, node?_ofEntries, hplaced]
  by_cases hway : place ∈ way path
  · have hold := hcrossed hway
    rw [hold, if_pos (hboth.2 (.inr hway))]
    cases hlast : last? place (placed entries) with
    | none => rfl
    | some node =>
      rw [hlast] at hold
      exact hold
  · rw [if_congr (hboth.trans (or_iff_left hway)) rfl rfl]

/-- What is put elsewhere does not matter, if nothing but directories lies on both ways. -/
theorem read_concat {file : Text} (h : ∀ on ∈ way file, ofPath path ≠ on ∧
      (on ∈ way path → (ofEntries entries).node? on = some .directory)) :
    (ofEntries (entries ++ [(path, node)])).read file = (ofEntries entries).read file :=
  read_congr fun on hmem => node?_concat (h on hmem).1 (h on hmem).2

/-- The last file that was put at a place is read by each path that leads there through directories,
if the path is one that the system takes. -/
theorem read_of_last? (hnul : '\x00' ∉ path) (hlength : byteLength path < 4096)
    (hnames : ∀ name ∈ Place.names path, byteLength name ≤ 255) (hway : way path ⊆ crossed entries)
    (hfree : ∀ on ∈ (way path).dropLast, ∀ other, (on, FileNode.file other) ∉ placed entries)
    (hlast : last? (ofPath path) (placed entries) = some (.file bytes)) :
    (ofEntries entries).read path = textOfBytes bytes := by
  have hwalk : (Place.names path).foldlM (ofEntries entries).step (start path) =
      .ok (ofPath path) := by
    -- All places on the way are there, as directories where nothing was put.
    apply foldlM_step_eq_ok
    · intro on hmem other hfile
      rw [node?_of_mem_crossed (hway (List.mem_of_mem_dropLast hmem))] at hfile
      cases hput : last? on (placed entries) with
      | none =>
        rw [hput] at hfile
        cases hfile
      | some node =>
        rw [hput] at hfile
        cases hfile
        exact hfree on hmem other (Entries.mem_of_last? hput)
    · intro on hmem
      rw [node?_of_mem_crossed (hway hmem)]
      rfl
    · exact hnames
  have hplace : (ofEntries entries).place path = .ok (ofPath path) := by
    rw [Directory.place, if_neg hnul, if_neg (Nat.not_le.2 hlength), hwalk]
  rw [Directory.read, hplace]
  dsimp only
  rw [node?_of_mem_crossed (hway (ofPath_mem_way path)), hlast]
  rfl

example : (ofEntries [("a/b", .file "x".toUTF8), ("a/c", .directory), ("a/b", .file "y".toUTF8)]).read
    "./a/c/../b" = .ok "y".toList := by
  decide +kernel

end Directory

/-- What is put elsewhere does not matter to a command. -/
theorem Program.perform_ofEntries_concat (color : Bool) {invocation : Invocation}
    {entries : List (Text × FileNode)} {path : Text} {node : FileNode}
    (h : ∀ file ∈ invocation.files, ∀ on ∈ Place.way file, Place.ofPath path ≠ on ∧
      (on ∈ Place.way path → (Directory.ofEntries entries).node? on = some .directory)) :
    perform color (Directory.ofEntries (entries ++ [(path, node)])).read invocation =
      perform color (Directory.ofEntries entries).read invocation :=
  perform_congr color fun file hmem =>
    Directory.read_concat (h file (FileReader.mem_of_mem_upTo hmem))

end ViewBuilder
