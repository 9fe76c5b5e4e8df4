import ViewBuilder.Markup.Indent

/-!
# The markup around a tab

A tab body without its own opening or closing call is put into the standard scaffold. A body that
has one is only indented again. Either way a guarded tab sits one level deeper, inside a test of
the permission to view it.
-/

namespace ViewBuilder.TabMarkup

open Markup

/-- The calls that show that a body brings its own scaffold. -/
def hasScaffold (body : Text) : Bool :=
  Text.contains "bootstrap.addTab" body || Text.contains "bootstrap.endTab" body

def line (base : Text) (level : Nat) (t : Text) : Text := '\n' :: base ++ indent level ++ t

def openingCall (view code lang : Text) : Text :=
  "<?php echo JHtml::_('bootstrap.addTab', '" ++ view ++ "Tab', '" ++ code ++ "', JText::_('" ++
    lang ++ "', true)); ?>"

def scaffold (view code lang body base : Text) : Text :=
  line base 1 (openingCall view code lang) ++
    line base 2 "<div class=\"row-fluid form-horizontal-desktop\">" ++
    line base 3 "<div class=\"span12\">" ++
    indentLines (base ++ indent 4) body ++
    line base 3 "</div>" ++
    line base 2 "</div>" ++
    line base 1 "<?php echo JHtml::_('bootstrap.endTab'); ?>"

/-- The markup of a tab whose lines start with `base`. -/
def wrap (view code lang body base : Text) : Text :=
  if hasScaffold body then indentLines (base ++ indent 1) body
  else scaffold view code lang body base

def guardOpening (view code : Text) : Text :=
  line [] 1 ("<?php if ($this->canDo->get('" ++ view ++ "." ++ code ++ ".viewtab')) : ?>")

def guardClosing : Text := line [] 1 "<?php endif; ?>"

def guard (view code html : Text) : Text := guardOpening view code ++ html ++ guardClosing

end ViewBuilder.TabMarkup
