import ViewBuilder.Text

/-!
# Numbers in words

A number is spelt in groups of three digits from the top, each group with the name of its scale.
Groups that are zero are left out, and zero alone is a word. The names reach up to the
quintillions, so every number below `10 ^ 21` is spelt in full.
-/

namespace ViewBuilder.Numeral

/-! ## One group -/

def ones : List Text :=
  ["zero", "one", "two", "three", "four", "five", "six", "seven", "eight", "nine", "ten",
   "eleven", "twelve", "thirteen", "fourteen", "fifteen", "sixteen", "seventeen", "eighteen",
   "nineteen"]

/-- The names of the tens; the first two are never spelt. -/
def tens : List Text :=
  ["", "", "twenty", "thirty", "forty", "fifty", "sixty", "seventy", "eighty", "ninety"]

def one (n : Fin 20) : Text := ones.get (n.cast rfl)

def ten (n : Fin 10) : Text := tens.get (n.cast rfl)

def belowHundred (n : Fin 100) : List Text :=
  if small : n.val < 20 then
    if n.val = 0 then [] else [one ⟨n, small⟩]
  else
    let last := n.val % 10
    ten ⟨n / 10, by omega⟩ :: if last = 0 then [] else [one ⟨last, by omega⟩]

/-- The words of one group of three digits; none for zero. -/
def group (n : Fin 1000) : List Text :=
  let hundreds := n.val / 100
  (if hundreds = 0 then [] else [one ⟨hundreds, by omega⟩, "hundred"]) ++
    belowHundred ⟨n % 100, by omega⟩

/-! ## All groups -/

/-- The groups from the top, each with its power of a thousand and its name. -/
def scales : List (Nat × List Text) :=
  [(6, ["quintillion"]), (5, ["quadrillion"]), (4, ["trillion"]), (3, ["billion"]),
   (2, ["million"]), (1, ["thousand"]), (0, [])]

def scaleWords (n : Nat) : Nat × List Text → List Text
  | (power, name) =>
    let digits := n / Nat.pow 1000 power % 1000
    if digits = 0 then [] else group ⟨digits, by omega⟩ ++ name

def words (n : Nat) : List Text :=
  if n = 0 then [one 0] else scales.flatMap (scaleWords n)

def text (n : Nat) : Text := Text.join " " (words n)

end ViewBuilder.Numeral
