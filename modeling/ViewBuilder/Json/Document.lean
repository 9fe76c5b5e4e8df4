import ViewBuilder.Json.Basic
import ViewBuilder.Json.Token

/-!
# JSON documents

A document is a JSON text as it is written: an object may give a key twice, and a part may be
written correctly and still name no value, because a number is too great, a string holds half of
a surrogate pair or the brackets nest too deep. Whoever skips a part of a document does not mind
what it names; whoever reads it does.
-/

namespace ViewBuilder.Json

inductive Document where
  | null
  | bool (b : Bool)
  | number (n : Number)
  | string (t : Text)
  | array (items : List Document)
  | object (entries : List (Text × Document))
  | unreadable

namespace Document

/-! ## Documents from tokens -/

/-- The deepest nesting of brackets that can be read. -/
def maxDepth : Nat := 127

/-- An open bracket with what has been read inside it, the last first. An object with an
unreadable key holds no entries any more. -/
inductive Frame where
  | items (done : List Document)
  | fields (done : Option (List (Text × Document))) (key : Option Text)

/-- What may come next. -/
inductive Expect where
  | value
  | firstItem
  | firstKey
  | key
  | colon
  | separator

def addEntry (key : Option Text) (value : Document) :
    Option (List (Text × Document)) → Option (List (Text × Document))
  | none => none
  | some done => key.map fun key => (key, value) :: done

/-- Puts a complete value into the innermost open bracket. -/
def Frame.add (value : Document) : Frame → Frame
  | .items done => .items (value :: done)
  | .fields done key => .fields (addEntry key value done) none

/-- The value of a bracket that closes at the given depth. -/
def Frame.close (depth : Nat) (frame : Frame) : Document :=
  if maxDepth < depth then .unreadable
  else
    match frame with
    | .items done => .array done.reverse
    | .fields (some done) _ => .object done.reverse
    | .fields none _ => .unreadable

def ofWritten (w : Number.Written) : Document :=
  match Number.ofWritten? w with
  | some n => .number n
  | none => .unreadable

def ofText? : Option Text → Document
  | some t => .string t
  | none => .unreadable

/-- The value of a token that is one by itself. -/
def scalar? : Token → Option Document
  | .null => some .null
  | .bool b => some (.bool b)
  | .number w => some (ofWritten w)
  | .string t => some (ofText? t)
  | _ => none

/-- How far the reading of tokens has come. The open brackets are there with the innermost first. -/
inductive Reading where
  | inside (frames : List Frame) (expect : Expect)
  | complete (value : Document)

namespace Reading

/-- Takes a complete value: the innermost open bracket gets it, or it is the whole document. -/
def after (value : Document) : List Frame → Reading
  | [] => complete value
  | frame :: outer => inside (frame.add value :: outer) .separator

/-- Closes the innermost open bracket. -/
def close? : List Frame → Option Reading
  | [] => none
  | frame :: outer => some (after (frame.close (outer.length + 1)) outer)

/-- Starts a value with the token that it begins with. -/
def start? (frames : List Frame) : Token → Option Reading
  | .openArray => some (inside (.items [] :: frames) .firstItem)
  | .openObject => some (inside (.fields (some []) none :: frames) .firstKey)
  | token => (scalar? token).map fun value => after value frames

/-- Takes the key of an entry. -/
def named? (key : Option Text) : List Frame → Option Reading
  | .fields done _ :: outer =>
    some (inside (.fields (if key.isSome then done else none) key :: outer) .colon)
  | _ => none

/-- Takes one token; nothing may come behind a complete document. -/
def step : Reading → Token → Option Reading
  | complete _, _ => none
  | inside frames expect, token =>
    match expect, token, frames with
    | .firstItem, .closeArray, _ => close? frames
    | .value, token, _ | .firstItem, token, _ => start? frames token
    | .firstKey, .closeObject, _ => close? frames
    | .firstKey, .string key, _ | .key, .string key, _ => named? key frames
    | .colon, .colon, _ => some (inside frames .value)
    | .separator, .comma, .items _ :: _ => some (inside frames .value)
    | .separator, .comma, .fields _ _ :: _ => some (inside frames .key)
    | .separator, .closeArray, .items _ :: _ => close? frames
    | .separator, .closeObject, .fields _ _ :: _ => close? frames
    | _, _, _ => none

def document? : Reading → Option Document
  | complete value => some value
  | inside _ _ => none

end Reading

/-- The document that tokens write. -/
def ofTokens? (tokens : List Token) : Option Document :=
  (tokens.foldlM Reading.step (.inside [] .value)).bind Reading.document?

/-- The document that a text writes. -/
def parse? (t : Text) : Option Document := (Token.all? t).bind ofTokens?

/-! ## Documents and values -/

mutual

/-- The value that a document names. Of two entries with one key the last counts, at the place
of the first. -/
def value? : Document → Option Json
  | .null => some .null
  | .bool b => some (.bool b)
  | .number n => some (.number n)
  | .string t => some (.string t)
  | .array items => (itemValues? items).map .array
  | .object entries => (entryValues? entries).map fun entries => .object (Entries.collapse entries)
  | .unreadable => none

def itemValues? : List Document → Option (List Json)
  | [] => some []
  | item :: rest =>
    match value? item, itemValues? rest with
    | some value, some values => some (value :: values)
    | _, _ => none

def entryValues? : List (Text × Document) → Option (List (Text × Json))
  | [] => some []
  | (key, item) :: rest =>
    match value? item, entryValues? rest with
    | some value, some values => some ((key, value) :: values)
    | _, _ => none

end

mutual

/-- A value as a document that writes it. -/
def ofJson : Json → Document
  | .null => .null
  | .bool b => .bool b
  | .number n => .number n
  | .string t => .string t
  | .array items => .array (ofItems items)
  | .object entries => .object (ofEntries entries)

def ofItems : List Json → List Document
  | [] => []
  | item :: rest => ofJson item :: ofItems rest

def ofEntries : List (Text × Json) → List (Text × Document)
  | [] => []
  | (key, value) :: rest => (key, ofJson value) :: ofEntries rest

end

end Document

/-- The value of a JSON text. -/
def parse? (t : Text) : Option Json := (Document.parse? t).bind Document.value?

end ViewBuilder.Json
