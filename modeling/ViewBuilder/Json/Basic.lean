import ViewBuilder.Entries
import ViewBuilder.Json.Number

/-!
# JSON values

An object keeps its entries in the order they came in.
-/

namespace ViewBuilder

inductive Json where
  | null
  | bool (b : Bool)
  | number (n : Json.Number)
  | string (t : Text)
  | array (items : List Json)
  | object (entries : List (Text × Json))

namespace Json

instance : Inhabited Json := ⟨.null⟩

/-! ## Shapes -/

def isNull : Json → Bool
  | .null => true
  | _ => false

def entries? : Json → Option (List (Text × Json))
  | .object entries => some entries
  | _ => none

def nat (n : Nat) : Json := .number (.integer n)

/-- Null for a missing value. -/
def ofOption (f : α → Json) : Option α → Json
  | none => .null
  | some a => f a

def texts (ts : List Text) : Json := .array (ts.map .string)

/-- The entry for a field that is written only if it has a value. -/
def optionalField (name : String) (value : Option Json) : List (Text × Json) :=
  value.toList.map fun v => (name.toList, v)

/-! ## Compact text -/

/-- The four hexadecimal digits of a character below 65536. -/
def hexDigits (c : Char) : Text :=
  let digits := Nat.toDigits 16 c.toNat
  List.replicate (4 - digits.length) '0' ++ digits

/-- Quotes, backslashes and control characters are escaped, everything else stands for itself. -/
def escape (c : Char) : Text :=
  if c = '"' then "\\\""
  else if c = '\\' then "\\\\"
  else if c = '\n' then "\\n"
  else if c = '\r' then "\\r"
  else if c = '\t' then "\\t"
  else if c.toNat = 0x08 then "\\b"
  else if c.toNat = 0x0C then "\\f"
  else if c.toNat < 0x20 then "\\u" ++ hexDigits c
  else [c]

def quote (t : Text) : Text := '"' :: t.flatMap escape ++ ['"']

def wrap (opening closing : Char) (separator : Text) (pieces : List Text) : Text :=
  opening :: Text.join separator pieces ++ [closing]

mutual

def render : Json → Text
  | .null => "null"
  | .bool true => "true"
  | .bool false => "false"
  | .number n => n.text
  | .string t => quote t
  | .array items => wrap '[' ']' "," (renderItems items)
  | .object entries => wrap '{' '}' "," (renderEntries entries)

def renderItems : List Json → List Text
  | [] => []
  | item :: rest => render item :: renderItems rest

def renderEntries : List (Text × Json) → List Text
  | [] => []
  | (key, value) :: rest => (quote key ++ ":" ++ render value) :: renderEntries rest

end

/-! ## Text for reading -/

def lineBreak (level : Nat) : Text := '\n' :: List.replicate (2 * level) ' '

/-- One piece a line, two spaces deeper than the brackets. -/
def wrapLines (level : Nat) (opening closing : Char) (pieces : List Text) : Text :=
  if pieces.isEmpty then [opening, closing]
  else
    opening :: lineBreak (level + 1) ++ Text.join (',' :: lineBreak (level + 1)) pieces ++
      lineBreak level ++ [closing]

mutual

def renderPretty (level : Nat) : Json → Text
  | .array items => wrapLines level '[' ']' (prettyItems (level + 1) items)
  | .object entries => wrapLines level '{' '}' (prettyEntries (level + 1) entries)
  | .null => "null"
  | .bool true => "true"
  | .bool false => "false"
  | .number n => n.text
  | .string t => quote t

def prettyItems (level : Nat) : List Json → List Text
  | [] => []
  | item :: rest => renderPretty level item :: prettyItems level rest

def prettyEntries (level : Nat) : List (Text × Json) → List Text
  | [] => []
  | (key, value) :: rest =>
    (quote key ++ ": " ++ renderPretty level value) :: prettyEntries level rest

end

def pretty (value : Json) : Text := renderPretty 0 value

end Json

end ViewBuilder
