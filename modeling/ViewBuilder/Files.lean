import ViewBuilder.Entries
import ViewBuilder.Report

/-!
# Files

What can go wrong when a text file is read, and a directory that is held in memory. A path leads
through directories name by name. It starts at the directory, or with a slash at the top of the
system, of which only the usual names are known. Of what lies between the two nothing is known but
that it is there.
-/

namespace ViewBuilder

inductive ReadFault where
  | missing
  | directory
  | notDirectory
  | nameTooLong
  | nulInName
  | notText
  /-- Any other fault of the system, with its message. -/
  | other (message : Text)
deriving DecidableEq

namespace ReadFault

def message : ReadFault → Text
  | missing => "No such file or directory (os error 2)"
  | directory => "Is a directory (os error 21)"
  | notDirectory => "Not a directory (os error 20)"
  | nameTooLong => "File name too long (os error 36)"
  | nulInName => "file name contained an unexpected NUL byte"
  | notText => "stream did not contain valid UTF-8"
  | other message => message

def cause (fault : ReadFault) : Cause :=
  if fault = missing then .missingFile fault.message else .other fault.message

end ReadFault

/-- How the text of a file is read, by its path. -/
abbrev FileReader := Text → Except ReadFault Text

/-- Answers from what was read beforehand. -/
def FileReader.ofRead (files : List (Text × Except ReadFault Text)) : FileReader := fun path =>
  (Entries.get? path files).getD (.error .missing)

/-- The text of a file that is UTF-8. -/
def textOfBytes (bytes : ByteArray) : Except ReadFault Text :=
  match String.fromUTF8? bytes with
  | some t => .ok t.toList
  | none => .error .notText

/-! ## A directory in memory -/

inductive FileNode where
  | file (bytes : ByteArray)
  | directory

/-- Where a path leads when no link lies on the way. Names are listed with the last first. -/
inductive Place where
  /-- So many levels above the directory, and from there down by names. -/
  | near (levels : Nat) (names : List Text)
  /-- Below the top of the system. -/
  | system (names : List Text)
deriving DecidableEq

namespace Place

/-- The place that a name leads to, which need not be there. -/
def down (name : Text) : Place → Place
  | near levels names => near levels (name :: names)
  | system names => system (name :: names)

/-- Above the top there is only the top itself. -/
def up : Place → Place
  | near levels (_ :: names) => near levels names
  | near levels [] => near (levels + 1) []
  | system names => system (names.drop 1)

/-- One name further along a path. -/
def next (place : Place) (name : Text) : Place :=
  if name = [] ∨ name = ['.'] then place
  else if name = ['.', '.'] then place.up
  else place.down name

/-- Where a path starts. -/
def start (path : Text) : Place := if path.head? = some '/' then system [] else near 0 []

def names (path : Text) : List Text := Text.splitWhere (· = '/') path

def ofPath (path : Text) : Place := (names path).foldl next (start path)

/-- The places that names lead through, both ends included. -/
def trail (place : Place) : List Text → List Place
  | [] => [place]
  | name :: rest => place :: trail (place.next name) rest

/-- The directories at the top of a system. -/
def topNames : List Text :=
  ["bin", "boot", "dev", "etc", "home", "lib", "media", "mnt", "opt", "proc", "root", "run", "sbin",
   "srv", "sys", "tmp", "usr", "var"]

/-- What stands at a place of every system: the directory itself and all above it, the directories
at the top, and the null device, which reads as an empty file. -/
def usual? : Place → Option FileNode
  | near _ [] => some .directory
  | near .. => none
  | system [] => some .directory
  | system [name] => if topNames.contains name then some .directory else none
  | system [name, parent] =>
    if name = "null".toList ∧ parent = "dev".toList then some (.file .empty) else none
  | system _ => none

end Place

/-- What was put into a directory, place by place. Of two nodes at one place the first counts. -/
structure Directory where
  nodes : List (Place × FileNode)

namespace Directory

/-- Entries are put in their order, so the last at a place counts. What a path leads through becomes
a directory. -/
def ofEntries (entries : List (Text × FileNode)) : Directory where
  nodes :=
    (entries.reverse.map fun (path, node) => (Place.ofPath path, node)) ++
    entries.flatMap fun (path, _) =>
      ((Place.start path).trail (Place.names path)).map fun place => (place, .directory)

def node? (directory : Directory) (place : Place) : Option FileNode :=
  (directory.nodes.lookup place).or place.usual?

def byteLength (t : Text) : Nat := (String.ofList t).utf8ByteSize

/-- One name further along a path, where something has to stand. -/
def step (directory : Directory) (place : Place) (name : Text) : Except ReadFault Place :=
  match directory.node? place with
  | some (.file _) => .error .notDirectory
  | _ =>
    if 255 < byteLength name then .error .nameTooLong
    else if (directory.node? (place.next name)).isNone then .error .missing
    else .ok (place.next name)

def place (directory : Directory) (path : Text) : Except ReadFault Place :=
  if '\x00' ∈ path then .error .nulInName
  else if 4096 ≤ byteLength path then .error .nameTooLong
  else (Place.names path).foldlM directory.step (Place.start path)

/-- The text of the file at a path. -/
def read (directory : Directory) (path : Text) : Except ReadFault Text :=
  match directory.place path with
  | .error fault => .error fault
  | .ok place =>
    match directory.node? place with
    | some (.file bytes) => textOfBytes bytes
    | some .directory => .error .directory
    | none => .error .missing

end Directory

end ViewBuilder
