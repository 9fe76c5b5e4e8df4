import ViewBuilder.Text

/-!
# Blank characters

A character is blank when it has the Unicode property `White_Space`. Trimming and cutting into
words go by that property.
-/

namespace ViewBuilder.Text

/-- The property `White_Space`, as ranges of code points. -/
def blankRanges : List (Nat × Nat) :=
  [(0x09, 0x0D), (0x20, 0x20), (0x85, 0x85), (0xA0, 0xA0), (0x1680, 0x1680), (0x2000, 0x200A),
   (0x2028, 0x2029), (0x202F, 0x202F), (0x205F, 0x205F), (0x3000, 0x3000)]

def isBlank (c : Char) : Bool :=
  blankRanges.any fun (first, last) => first ≤ c.toNat && c.toNat ≤ last

/-- A text with no character but blank ones, or none at all. -/
def allBlank (t : Text) : Bool := t.all isBlank

def trimStart (t : Text) : Text := t.dropWhile isBlank

def trimEnd (t : Text) : Text := (t.reverse.dropWhile isBlank).reverse

def trim (t : Text) : Text := trimEnd (trimStart t)

/-- The longest pieces with no blank character. -/
def words (t : Text) : List Text := (splitWhere isBlank t).filter fun piece => !piece.isEmpty

end ViewBuilder.Text
