import ViewBuilder.Json.Document
import ViewBuilder.Text.Blank

/-!
# Raw tabs

The tabs of a view come as loose JSON. They are read once, into records with fixed fields, and
whatever does not read as a tab is dropped.
-/

namespace ViewBuilder

structure RawTab where
  /-- None unless the name is a text that is not blank. -/
  name : Option Text
  html : Text
  /-- Whether the tab is shown to permitted users only. -/
  guarded : Bool
deriving DecidableEq

namespace RawTab

open Json (Number)

/-! ## Loose truth -/

/-- An exponent in a number that a person wrote. Digits are ignored once it is far beyond any
number that matters. -/
def exponentOf? (t : Text) : Option Int :=
  let (negative, digits) := match t with
    | '-' :: rest => (true, rest)
    | '+' :: rest => (false, rest)
    | _ => (false, t)
  if digits.isEmpty || !digits.all Char.isDigit then none
  else
    let size := digits.foldl
      (fun e c => if e < 65536 then 10 * e + Text.digitsValue [c] else e) 0
    some (if negative then -(size : Int) else size)

/-- The size of a number that a person wrote: digits with or without a point, at least one of
them, and perhaps an exponent. -/
def decimalOf? (t : Text) : Option Decimal :=
  let whole := t.takeWhile Char.isDigit
  let (fraction, rest) : Text × Text := match t.dropWhile Char.isDigit with
    | '.' :: rest => (rest.takeWhile Char.isDigit, rest.dropWhile Char.isDigit)
    | rest => ([], rest)
  if whole.isEmpty && fraction.isEmpty then none
  else
    let digits := Text.digitsValue (whole ++ fraction)
    match rest with
    | [] => some ⟨digits, -fraction.length⟩
    | c :: power =>
      if c = 'e' || c = 'E' then
        (exponentOf? power).map fun e => ⟨digits, e - fraction.length⟩
      else none

/-- Whether a text is a number that rounds to one. -/
def isOneText (t : Text) : Bool :=
  let size := match t with
    | '+' :: rest => rest
    | _ => t
  (decimalOf? size).bind Decimal.round? = some .one

/-- Accepts `1`, `1.0`, `"1"` and `true`. -/
def isOne : Json → Bool
  | .number n => n.isOne
  | .string t => isOneText (Text.trim t)
  | .bool b => b
  | _ => false

/-! ## Tabs from JSON -/

def nameOf? : Option Json → Option Text
  | some (.string t) => if Text.allBlank t then none else some t
  | _ => none

/-- A body may be a text or a number. -/
def htmlOf : Option Json → Text
  | some (.string t) => t
  | some (.number n) => n.text
  | _ => []

def ofEntries (entries : List (Text × Json)) : RawTab where
  name := nameOf? (Entries.get? "name".toList entries)
  html := htmlOf (Entries.get? "html".toList entries)
  guarded := (Entries.get? "permission".toList entries).any isOne

/-- The values of a list, or of an object in its order. -/
def candidates : Json → List Json
  | .array items => items
  | .object entries => entries.map (·.2)
  | _ => []

/-- The JSON in a field that holds either JSON or its text. -/
def unpack? : Json → Option Json
  | .string t => Json.parse? t
  | value => some value

/-- The tabs in a field of a view; none when there is no such field. -/
def decode (raw : Option Json) : List RawTab :=
  match raw.bind unpack? with
  | none => []
  | some value => (candidates value).filterMap fun item => item.entries?.map ofEntries

end RawTab

end ViewBuilder
