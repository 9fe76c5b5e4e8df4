import ViewBuilder.Entries
import ViewBuilder.Text

/-!
# TOML values and tables under construction

A table can come about in four ways, and each limits what later lines may add to it. A header may
declare a table that longer headers only implied. A key with dots may add to a table that such keys
made; it may also go through implied tables and into the open one of those that headers in double
brackets made, but puts no value there. Nothing is added to a table in braces.
-/

namespace ViewBuilder

namespace Toml

inductive Origin where
  /-- A longer header names the table on its way. -/
  | implied
  | declared
  | dotted
  | inline
deriving DecidableEq, Repr

end Toml

/-- Floats and moments are kept as they are written. -/
inductive Toml where
  | string (t : Text)
  | integer (n : Int)
  | float (written : Text)
  | bool (b : Bool)
  | moment (written : Text)
  | array (items : List Toml)
  | table (origin : Toml.Origin) (fields : List (Text × Toml))
  /-- The tables that headers in double brackets made; the last one is still open. -/
  | tables (done : List (List (Text × Toml))) (last : List (Text × Toml))

namespace Toml

abbrev Fields := List (Text × Toml)

/-! ## Keys with dots -/

/-- The fields that a key with dots goes through, and what they are put back as. Of the tables on
the way only the last one takes a value, and that must not be one that a header made. -/
def passage? (last : Bool) : Option Toml → Option ((Fields → Toml) × Fields)
  | none => some (.table .dotted, [])
  | some (.table .dotted fields) => some (.table .dotted, fields)
  | some (.table .implied fields) => if last then none else some (.table .implied, fields)
  | some (.tables done fields) => if last then none else some (.tables done, fields)
  | some _ => none

/-- Sets a key that has no value yet. -/
def insert (value : Toml) : List Text → Fields → Option Fields
  | [], _ => none
  | [key], fields =>
    if (Entries.get? key fields).isSome then none else some (Entries.put key value fields)
  | key :: next :: path, fields =>
    match passage? path.isEmpty (Entries.get? key fields) with
    | none => none
    | some (putBack, inner) =>
      (insert value (next :: path) inner).map fun inner => Entries.put key (putBack inner) fields

/-! ## Headers -/

/-- Changes the value at the key of a header; tables on the way that are missing are implied. -/
def update (change : Option Toml → Option Toml) : List Text → Fields → Option Fields
  | [], _ => none
  | [key], fields =>
    (change (Entries.get? key fields)).map fun value => Entries.put key value fields
  | key :: next :: path, fields =>
    let changed : Option Toml := match Entries.get? key fields with
      | none => (update change (next :: path) []).map (.table .implied)
      | some (.table .inline _) => none
      | some (.table origin inner) => (update change (next :: path) inner).map (.table origin)
      | some (.tables done last) => (update change (next :: path) last).map (.tables done)
      | some _ => none
    changed.map fun value => Entries.put key value fields

/-- What a header in single brackets makes of the value at its key. -/
def declare : Option Toml → Option Toml
  | none => some (.table .declared [])
  | some (.table .implied fields) => some (.table .declared fields)
  | some _ => none

/-- What a header in double brackets makes of the value at its key. -/
def append : Option Toml → Option Toml
  | none => some (.tables [] [])
  | some (.tables done last) => some (.tables (last :: done) [])
  | some _ => none

/-- Sets a key in the table that a header has opened. -/
def insertInto (path : List Text) (value : Toml) : Option Toml → Option Toml
  | some (.table origin fields) => (insert value path fields).map (.table origin)
  | some (.tables done last) => (insert value path last).map (.tables done)
  | _ => none

/-! ## Lines -/

inductive Line where
  | table (path : List Text)
  | item (path : List Text)
  | entry (path : List Text) (value : Toml)

/-- The top table and the key of the header that is open. -/
structure Partial where
  top : Fields := []
  header : List Text := []

def Partial.add (state : Partial) : Line → Option Partial
  | .table path => (update declare path state.top).map fun top => ⟨top, path⟩
  | .item path => (update append path state.top).map fun top => ⟨top, path⟩
  | .entry path value =>
    let top := if state.header.isEmpty then insert value path state.top
      else update (insertInto path value) state.header state.top
    top.map fun top => { state with top }

/-- The top table that lines make, if no line contradicts an earlier one. -/
def ofLines? (lines : List Line) : Option Fields :=
  (lines.foldlM Partial.add {}).map Partial.top

end Toml

end ViewBuilder
