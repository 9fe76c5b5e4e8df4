import ViewBuilder.Decimal.Shortest

/-!
# Numbers in JSON

A number written with digits alone is an integer while it fits 64 bits; every other number is a
binary floating point number. Reading a float takes the digits that fit 64 bits, turns them into a
binary number and scales that once by a power of ten, so it rounds at most twice and need not be
the nearest one. Writing uses the shortest digits that read back.
-/

namespace ViewBuilder.Json

inductive Number where
  | integer (n : Int)
  | float (negative : Bool) (magnitude : Binary64)
deriving DecidableEq, Repr

namespace Number

/-! ## Writing -/

/-- Whether a number is written without an exponent, by the place of its decimal point. -/
def isPositional (point : Int) : Bool := -5 < point && point ≤ 16

def zeros (count : Nat) : Text := List.replicate count '0'

def positionalText (digits : Text) (point : Int) : Text :=
  if point ≤ 0 then "0." ++ zeros (-point).toNat ++ digits
  else if digits.length ≤ point.toNat then digits ++ zeros (point.toNat - digits.length) ++ ".0"
  else digits.take point.toNat ++ "." ++ digits.drop point.toNat

def exponentText (digits : Text) (point : Int) : Text :=
  let power := point - 1
  let fraction := if digits.length ≤ 1 then [] else '.' :: digits.drop 1
  let sign : Text := if power < 0 then "-" else "+"
  digits.take 1 ++ fraction ++ "e" ++ sign ++ Text.ofNat power.natAbs

def magnitudeText (x : Binary64) : Text :=
  let d := x.shortest
  let digits := Text.ofNat d.digits
  let point := digits.length + d.exponent
  if d.digits = 0 then "0.0"
  else if isPositional point then positionalText digits point
  else exponentText digits point

def signed (negative : Bool) (t : Text) : Text := if negative then '-' :: t else t

def text : Number → Text
  | .integer n => signed (n < 0) (Text.ofNat n.natAbs)
  | .float negative x => signed negative (magnitudeText x)

/-! ## Reading -/

/-- The parts of a number as it is written. -/
structure Written where
  negative : Bool
  whole : Text
  fraction : Option Text
  exponent : Option Int
deriving Repr

/-- An exponent as it is written: digits behind an optional sign. -/
def exponentOf? (t : Text) : Option Int :=
  let (negative, digits) := match t with
    | '-' :: rest => (true, rest)
    | '+' :: rest => (false, rest)
    | _ => (false, t)
  if digits.isEmpty || !digits.all Char.isDigit then none
  else
    let size : Int := Text.digitsValue digits
    some (if negative then -size else size)

/-- What may follow the digits before the point: a fraction, an exponent, both or neither. -/
def tailOf? (negative : Bool) (whole : Text) : Text → Option Written
  | [] => some ⟨negative, whole, none, none⟩
  | '.' :: rest =>
    let fraction := rest.takeWhile Char.isDigit
    if fraction.isEmpty then none
    else
      match rest.dropWhile Char.isDigit with
      | [] => some ⟨negative, whole, some fraction, none⟩
      | c :: power =>
        if c = 'e' || c = 'E' then
          (exponentOf? power).map fun e => ⟨negative, whole, some fraction, some e⟩
        else none
  | c :: power =>
    if c = 'e' || c = 'E' then (exponentOf? power).map fun e => ⟨negative, whole, none, some e⟩
    else none

/-- The parts of a number; the digits before the point start with a zero only when that is all
of them. -/
def written? (t : Text) : Option Written :=
  let (negative, rest) := match t with
    | '-' :: rest => (true, rest)
    | _ => (false, t)
  let whole := rest.takeWhile Char.isDigit
  if whole.isEmpty || (whole.head? = some '0' && 1 < whole.length) then none
  else tailOf? negative whole (rest.dropWhile Char.isDigit)

/-- Takes digits while the value fits 64 bits; says how many were taken. -/
def takeFitting (value : Nat) : Text → Nat × Nat
  | [] => (value, 0)
  | c :: digits =>
    let next := 10 * value + Text.digitsValue [c]
    if next < Text.wordLimit then
      let (last, count) := takeFitting next digits
      (last, count + 1)
    else (value, 0)

/-- Multiplies or divides by a power of ten that is itself a binary number. -/
def scaleBy? (x : Binary64) (exponent : Int) : Option Binary64 :=
  match Binary64.ofNat? (Nat.pow 10 exponent.natAbs) with
  | none => none
  | some power => if 0 ≤ exponent then x.mul? power else x.div? power

/-- Scales by a power of ten. Below the format's range this goes in steps of 308 places, until
the number is zero or the last step is in range. -/
def scale? (x : Binary64) (exponent : Int) : Option Binary64 :=
  if x.mantissa = 0 then some .zero
  else if 308 < exponent then none
  else if _far : exponent < -308 then (scaleBy? x (-308)).bind fun y => scale? y (exponent + 308)
  else scaleBy? x exponent
termination_by (-exponent).toNat

def floatOf? (w : Written) : Option Number :=
  let (wholeValue, wholeCount) := takeFitting 0 w.whole
  let dropped := w.whole.length - wholeCount
  let (value, count) := takeFitting wholeValue (w.fraction.getD [])
  let exponent := (dropped : Int) - count + w.exponent.getD 0
  (Binary64.ofNat? value).bind fun x => (scale? x exponent).map (.float w.negative)

/-- The number that is written; none when it is too great. A negative zero is a float. -/
def ofWritten? (w : Written) : Option Number :=
  let value := Text.digitsValue w.whole
  match w.fraction, w.exponent with
  | none, none =>
    if w.negative then
      if 0 < value ∧ 2 * value ≤ Text.wordLimit then some (.integer (-value)) else floatOf? w
    else if value < Text.wordLimit then some (.integer value)
    else floatOf? w
  | _, _ => floatOf? w

/-! ## Comparing with one -/

def isOne : Number → Bool
  | .integer n => n = 1
  | .float negative x => !negative && x = .one

end Number

end ViewBuilder.Json
