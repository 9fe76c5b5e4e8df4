import ViewBuilder.Decimal.Shortest
import ViewBuilder.Toml.Basic

/-!
# Unquoted values in TOML

A value without quotes or brackets is a truth value, a number, or a date, a time or both. Single
underscores may stand between digits.
-/

namespace ViewBuilder.Toml.Word

/-! ## Digits -/

def digit? (base : Nat) (c : Char) : Option Nat := (Text.hexValue? c).filter (· < base)

/-- The values of digits, of which there is at least one on each side of an underscore. -/
def digits? (base : Nat) (t : Text) : Option (List Nat) :=
  let pieces := Text.splitWhere (· = '_') t
  if pieces.any List.isEmpty then none else pieces.flatten.mapM (digit? base)

def value (base : Nat) (digits : List Nat) : Nat :=
  digits.foldl (fun value digit => base * value + digit) 0

def natural? (base : Nat) (t : Text) : Option Nat := (digits? base t).map (value base)

/-- Decimal digits that start with a zero only when that is all of them. -/
def plain? (t : Text) : Option (List Nat) :=
  (digits? 10 t).filter fun digits => digits.head? ≠ some 0 || digits.length = 1

/-- A sign, and what is behind it. -/
def sign : Text → Bool × Text
  | '-' :: rest => (true, rest)
  | '+' :: rest => (false, rest)
  | t => (false, t)

/-! ## Integers -/

def signed (negative : Bool) (n : Nat) : Int := if negative then -n else n

def anyInteger? : Text → Option Int
  | '0' :: 'x' :: rest => (natural? 16 rest).map Int.ofNat
  | '0' :: 'o' :: rest => (natural? 8 rest).map Int.ofNat
  | '0' :: 'b' :: rest => (natural? 2 rest).map Int.ofNat
  | t => (plain? (sign t).2).map fun digits => signed (sign t).1 (value 10 digits)

/-- An integer that fits 128 bits, with or without a sign. -/
def integer? (t : Text) : Option Int :=
  (anyInteger? t).filter fun n =>
    if n < 0 then n.natAbs ≤ Nat.pow 2 127 else n.natAbs < Nat.pow 2 128

/-! ## Floats -/

def isDigitPart (c : Char) : Bool := c.isDigit || c = '_'

/-- The fraction behind a point, if there is one, and what is behind it. -/
def fraction? : Text → Option (List Nat × Text)
  | '.' :: rest =>
    (digits? 10 (rest.takeWhile isDigitPart)).map fun digits =>
      (digits, rest.dropWhile isDigitPart)
  | t => some ([], t)

def exponent? : Text → Option Int
  | [] => some 0
  | c :: rest =>
    if c = 'e' || c = 'E' then
      (natural? 10 (sign rest).2).map fun size => signed (sign rest).1 size
    else none

/-- A number with a fraction, an exponent or both, in the range of the 64-bit binary format. -/
def isDecimalFloat (t : Text) : Bool :=
  let whole := t.takeWhile isDigitPart
  let rest := t.dropWhile isDigitPart
  match plain? whole, fraction? rest with
  | some digits, some (fraction, power) =>
    match exponent? power with
    | some exponent =>
      let d : Decimal := ⟨value 10 (digits ++ fraction), exponent - fraction.length⟩
      !rest.isEmpty && d.round?.isSome
    | none => false
  | _, _ => false

def isFloat (t : Text) : Bool :=
  let t := (sign t).2
  t = "inf".toList || t = "nan".toList || isDecimalFloat t

/-! ## Dates and times -/

/-- A number of exactly so many digits, between two bounds. -/
def field? (count first last : Nat) (t : Text) : Option (Nat × Text) :=
  let digits := t.take count
  let n := Text.digitsValue digits
  if digits.length = count && digits.all Char.isDigit && first ≤ n && n ≤ last then
    some (n, t.drop count)
  else none

def mark? (c : Char) : Text → Option Text
  | [] => none
  | d :: rest => if d = c then some rest else none

def isLeapYear (year : Nat) : Bool := year % 4 = 0 && (year % 100 ≠ 0 || year % 400 = 0)

def daysIn (year month : Nat) : Nat :=
  if month = 2 then if isLeapYear year then 29 else 28
  else if month = 4 || month = 6 || month = 9 || month = 11 then 30
  else 31

/-- The rest behind a date. -/
def afterDate? (t : Text) : Option Text := do
  let (year, t) ← field? 4 0 9999 t
  let (month, t) ← field? 2 1 12 (← mark? '-' t)
  let (_, t) ← field? 2 1 (daysIn year month) (← mark? '-' t)
  some t

/-- The rest behind a fraction of a second, which has at least one digit. -/
def afterFraction? : Text → Option Text
  | '.' :: d :: rest => if d.isDigit then some (rest.dropWhile Char.isDigit) else none
  | '.' :: [] => none
  | t => some t

def afterSeconds? : Text → Option Text
  | ':' :: rest => (field? 2 0 60 rest).bind fun (_, rest) => afterFraction? rest
  | t => some t

/-- The rest behind a time; the seconds may be left out, and there may be a leap second. -/
def afterTime? (t : Text) : Option Text := do
  let (_, t) ← field? 2 0 23 t
  let (_, t) ← field? 2 0 59 (← mark? ':' t)
  afterSeconds? t

def isOffset : Text → Bool
  | [] => true
  | ['Z'] => true
  | ['z'] => true
  | c :: rest =>
    (c = '+' || c = '-') &&
      ((field? 2 0 23 rest).bind fun (_, t) => (mark? ':' t).bind (field? 2 0 59)).any fun (_, t) =>
        t.isEmpty

def isDay (t : Text) : Bool := (afterDate? t).any List.isEmpty

def isMoment (t : Text) : Bool :=
  isDay t || (afterTime? t).any List.isEmpty ||
    match afterDate? t with
    | some (c :: time) =>
      (c = 'T' || c = 't' || c = ' ') && (afterTime? time).any isOffset
    | _ => false

/-! ## Words -/

def toml? (t : Text) : Option Toml :=
  if t = "true".toList then some (.bool true)
  else if t = "false".toList then some (.bool false)
  else if isMoment t then some (.moment t)
  else
    match integer? t with
    | some n => some (.integer n)
    | none => if isFloat t then some (.float t) else none

/-- The characters that end a word. -/
def isEnd (c : Char) : Bool :=
  c = ' ' || c = '\t' || c = '\n' || c = '\r' || c = ',' || c = ']' || c = '}' || c = '#'

/-- The value of the word that a text starts with. A blank may stand between a day and a time. -/
def first? (t : Text) : Option (Toml × Text) :=
  let word := t.takeWhile fun c => !isEnd c
  let rest := t.dropWhile fun c => !isEnd c
  match rest with
  | ' ' :: d :: behind =>
    if isDay word && d.isDigit then
      let time := (d :: behind).takeWhile fun c => !isEnd c
      (toml? (word ++ ' ' :: time)).map fun value => (value, (d :: behind).drop time.length)
    else (toml? word).map fun value => (value, rest)
  | _ => (toml? word).map fun value => (value, rest)

example : integer? "1_000" = some 1000 := by decide
example : integer? "0xff" = some 255 := by decide
example : integer? "012" = none := by decide
example : isMoment "1979-05-27 07:32:00.5Z" := by decide
example : isMoment "1979-02-29" = false := by decide
example : isFloat "6.5e-3" := by decide +kernel
example : isFloat "1." = false := by decide

end ViewBuilder.Toml.Word
