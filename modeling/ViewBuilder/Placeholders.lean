import ViewBuilder.Table
import ViewBuilder.Text.Blank
import ViewBuilder.Text.Uppercase

/-!
# Placeholders

Fragments refer to names that are known when a view is compiled by placeholders, written
`[[[key]]]` or `###key###`. Both forms of a key have the same value. An unknown placeholder is
ordinary text.
-/

namespace ViewBuilder

/-- The values of the full forms, delimiters included. -/
structure Placeholders where
  forms : Table Text

namespace Placeholders

open Text

def bracket (key : Text) : Text := "[[[" ++ key ++ "]]]"

def hash (key : Text) : Text := "###" ++ key ++ "###"

def empty : Placeholders := ⟨.empty⟩

def set (p : Placeholders) (key value : Text) : Placeholders :=
  ⟨(p.forms.insert (hash key) value).insert (bracket key) value⟩

def remove (p : Placeholders) (key : Text) : Placeholders :=
  ⟨(p.forms.erase (bracket key)).erase (hash key)⟩

def get? (p : Placeholders) (key : Text) : Option Text :=
  (p.forms.get? (bracket key)).or (p.forms.get? (hash key))

/-- The value of a key, or the empty text. -/
def get (p : Placeholders) (key : Text) : Text := (p.get? key).getD []

def contains (p : Placeholders) (key : Text) : Bool := (p.get? key).isSome

/-- The number of forms, two for each key. -/
def size (p : Placeholders) : Nat := p.forms.size

def isEmpty (p : Placeholders) : Bool := p.forms.isEmpty

/-! ## Substitution -/

def replaceForm (t : Text) (form value : Text) : Text :=
  if Text.contains form t then replaceAll form value t else t

/-- Replaces the forms one after the other in ascending order, each in the text that the ones
before it left. A text with neither kind of delimiter holds no placeholder. -/
def substitute (forms : Table Text) (t : Text) : Text :=
  if Text.contains "[[[" t || Text.contains "###" t then
    forms.entries.foldl (fun t (form, value) => replaceForm t form value) t
  else t

def update (p : Placeholders) (t : Text) : Text := substitute p.forms t

/-! ## Names for people -/

def capitalise : Text → Text
  | [] => []
  | c :: t => uppercase c ++ t

/-- The words of a code name, each with a capital: `sales_order` becomes `Sales Order`. -/
def titleCase (code : Text) : Text :=
  let pieces := splitWhere (fun c => c = '_' || isBlank c) code
  join " " ((pieces.filter fun piece => !piece.isEmpty).map capitalise)

end Placeholders

end ViewBuilder
