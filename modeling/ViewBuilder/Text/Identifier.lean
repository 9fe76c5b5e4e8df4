import ViewBuilder.Text.Blank
import ViewBuilder.Text.Numeral

/-!
# Identifiers from labels

A label that people read becomes an identifier for generated code: its words, with numbers spelt
out and all but the letters `a` to `z` left out, joined by underscores.
-/

namespace ViewBuilder.Identifier

open Text

inductive LetterCase where
  | lower
  | upper
deriving DecidableEq, Repr

def LetterCase.apply : LetterCase → Char → Char
  | .lower, c => c.toLower
  | .upper, c => c.toUpper

/-! ## Numbers -/

/-- A run of digits in words. A run that does not fit 64 bits is spelt digit by digit. -/
def runWords (digits : Text) : Text :=
  let value := digitsValue digits
  if value < wordLimit then Numeral.text value
  else join " " (digits.map fun c => Numeral.text (digitsValue [c]))

/-- Sets a run of digits off as words of its own. -/
def spellRun : Text → Text
  | [] => []
  | digits => " " ++ runWords digits ++ " "

/-- Spells every run of digits; `run` holds the digits just read. -/
def spellDigits (run : Text) : Text → Text
  | [] => spellRun run
  | c :: t =>
    if c.isDigit then spellDigits (run ++ [c]) t
    else spellRun run ++ c :: spellDigits [] t

/-! ## The whole label -/

def spaced (label : Text) : Text := (trim label).map fun c => if c = '_' then ' ' else c

/-- The words of an identifier, in the letters of the label. -/
def wordsOf (label : Text) : List Text :=
  words ((spellDigits [] (spaced label)).filter fun c => c.isAlpha || isBlank c)

def ofLabel (letters : LetterCase) (label : Text) : Text :=
  (join "_" (wordsOf label)).map letters.apply

end ViewBuilder.Identifier
