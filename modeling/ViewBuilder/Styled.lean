import ViewBuilder.Text

/-!
# Styled text

Output for people is made of spans, each in one style. On a terminal with colours a span is put
between the escape codes of its style; elsewhere only the texts are left.
-/

namespace ViewBuilder

inductive Style where
  | plain
  | bold
  | dimmed
  | green
  | yellow
  | cyan
  | boldRed
deriving DecidableEq, Repr

namespace Style

def codes? : Style → Option Text
  | plain => none
  | bold => some "1"
  | dimmed => some "2"
  | green => some "32"
  | yellow => some "33"
  | cyan => some "36"
  | boldRed => some "1;31"

def escape (codes : Text) : Text := "\x1b[" ++ codes ++ "m"

/-- The escape that ends every style. -/
def reset : Text := escape "0"

end Style

structure Span where
  style : Style
  text : Text
deriving DecidableEq

namespace Span

def plain (t : Text) : Span := ⟨.plain, t⟩

/-- A text that itself ends a style goes on in the style of the span. -/
def render (color : Bool) (span : Span) : Text :=
  match color, span.style.codes? with
  | true, some codes =>
    let start := Style.escape codes
    start ++ Text.replaceAll Style.reset (Style.reset ++ start) span.text ++ Style.reset
  | _, _ => span.text

end Span

/-- A line of output, without its end. -/
abbrev StyledLine := List Span

namespace StyledLine

def render (color : Bool) (line : StyledLine) : Text := line.flatMap (Span.render color) ++ "\n"

def renderAll (color : Bool) (lines : List StyledLine) : Text := lines.flatMap (render color)

end StyledLine

end ViewBuilder
