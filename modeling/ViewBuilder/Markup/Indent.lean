import ViewBuilder.Text.Blank

/-!
# Indentation

Generated markup is indented by tabs. A block is trimmed as a whole and each of its lines starts
on a new line behind the given lead, so the result begins with a line break and ends with none.
-/

namespace ViewBuilder.Markup

open Text

def indent (levels : Nat) : Text := List.replicate levels '\t'

/-- Takes off the carriage return of a line that ended in two characters. -/
def dropReturn (line : Text) : Text := if line.getLast? = some '\r' then line.dropLast else line

def lines (content : Text) : List Text := (splitWhere (· = '\n') (trim content)).map dropReturn

def indentLines (lead content : Text) : Text :=
  (lines content).flatMap fun line => '\n' :: lead ++ line

end ViewBuilder.Markup
