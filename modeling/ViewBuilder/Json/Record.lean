import ViewBuilder.Json.Document
import ViewBuilder.Table

/-!
# Records in documents

A record has known fields. As an object it may hold other fields too, which do not matter, but a
known field may not come twice. Some records may also be an array of their fields in order, of
which the last ones may be left out.
-/

namespace ViewBuilder.Json.Document

/-! ## Values of one kind -/

def text? : Document → Option Text
  | .string t => some t
  | _ => none

def nat? : Document → Option Nat
  | .number (.integer n) => if 0 ≤ n then some n.toNat else none
  | _ => none

/-- Null for a missing value. -/
def option? (read : Document → Option α) : Document → Option (Option α)
  | .null => some none
  | document => (read document).map some

def list? (read : Document → Option α) : Document → Option (List α)
  | .array items => items.mapM read
  | _ => none

def textEntry? (entry : Text × Document) : Option (Text × Text) :=
  (text? entry.2).map fun t => (entry.1, t)

/-- An object whose values are all texts. -/
def textTable? : Document → Option (Table Text)
  | .object entries => (entries.mapM textEntry?).map Table.ofList
  | _ => none

/-- A name among known ones, written as a text or as an object that gives it null. -/
def name? (read : Text → Option α) : Document → Option α
  | .string t => read t
  | .object [(key, .null)] => read key
  | _ => none

/-! ## Fields -/

abbrev Fields := List (Text × Document)

/-- The fields of an object in which no known field comes twice. -/
def objectFields? (known : List Text) : Document → Option Fields
  | .object entries =>
    if known.all fun name => entries.countP (fun entry => entry.1 = name) ≤ 1 then some entries
    else none
  | _ => none

/-- The fields of an object, or of an array that gives them in order. -/
def recordFields? (known : List Text) : Document → Option Fields
  | .array items => if items.length ≤ known.length then some (known.zip items) else none
  | document => objectFields? known document

def Fields.required? (fields : Fields) (name : Text) (read : Document → Option α) : Option α :=
  (Entries.get? name fields).bind read

def Fields.withDefault? (fields : Fields) (name : Text) (default : α)
    (read : Document → Option α) : Option α :=
  match Entries.get? name fields with
  | none => some default
  | some document => read document

/-- A field that may be missing or null. -/
def Fields.optional? (fields : Fields) (name : Text) (read : Document → Option α) :
    Option (Option α) :=
  fields.withDefault? name none (option? read)

end ViewBuilder.Json.Document
