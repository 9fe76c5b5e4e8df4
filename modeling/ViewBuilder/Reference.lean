import ViewBuilder.Alias

/-!
# References

Generated markup refers to templates and layouts by calls of four shapes. Each shape is an opening
and a closing text around a name; a call ends at the nearest closing text. Names are taken as they
stand, and empty ones are left out. The calls in single quotes come before those in double quotes.
-/

namespace ViewBuilder

structure Reference where
  kind : AliasKind
  name : Text
deriving DecidableEq

/-! ## One shape of call -/

/-- The texts around the name in a call. -/
structure CallShape where
  opening : Text
  closing : Text
  opening_ne_nil : opening ≠ []

namespace CallShape

open Text

/-- The names of all calls of a shape, empty ones included. -/
def names (shape : CallShape) (t : Text) : List Text :=
  match _opened : cut? shape.opening t with
  | none => []
  | some (_, behind) =>
    match _closed : cut? shape.closing behind with
    | none => []
    | some (name, rest) => name :: names shape rest
termination_by t.length
decreasing_by
  have := length_lt_of_cut? shape.opening_ne_nil ‹_›
  have := @length_of_cut? shape.closing _ _ _ ‹_›
  omega

def scan (shape : CallShape) (t : Text) : List Text :=
  (shape.names t).filter fun name => !name.isEmpty

def templateSingle : CallShape := ⟨"$this->loadTemplate('", "')", by decide⟩

def templateDouble : CallShape := ⟨"$this->loadTemplate(\"", "\")", by decide⟩

def layoutSingle : CallShape := ⟨"JLayoutHelper::render('", "',", by decide⟩

def layoutDouble : CallShape := ⟨"JLayoutHelper::render(\"", "\",", by decide⟩

end CallShape

/-! ## All references of a text -/

structure References where
  templates : List Text
  layouts : List Text
deriving DecidableEq

namespace References

def scan (t : Text) : References where
  templates := CallShape.templateSingle.scan t ++ CallShape.templateDouble.scan t
  layouts := CallShape.layoutSingle.scan t ++ CallShape.layoutDouble.scan t

def isEmpty (references : References) : Bool :=
  references.templates.isEmpty && references.layouts.isEmpty

/-- All references in the order in which they are looked up. -/
def toList (references : References) : List Reference :=
  references.templates.map (Reference.mk .template) ++
    references.layouts.map (Reference.mk .layout)

end References

end ViewBuilder
