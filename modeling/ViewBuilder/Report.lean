import ViewBuilder.Failure
import ViewBuilder.Styled

/-!
# Reports of failures

A failure that ends the program is reported with what is known about it and with advice. What goes
wrong on the way is a trouble: a cause, and the contexts that the callers wrapped around it. A
failure of the library is reported as itself and its contexts are dropped; of any other cause the
outermost context is the message.
-/

namespace ViewBuilder

structure Report where
  failure : Failure
  suggestion : Option Text := none
  details : Option Text := none
deriving DecidableEq

namespace Report

/-! ## Texts -/

/-- A further line, if there is anything to put on it. -/
def furtherLine (label : Text) : Option Text → Text
  | none => []
  | some t => '\n' :: label ++ ": " ++ t

def text (report : Report) : Text :=
  report.failure.message ++ furtherLine "Details" report.details ++
    furtherLine "Suggestion" report.suggestion

def labelled (style : Style) (label t : Text) : StyledLine := [⟨style, label⟩, .plain (": " ++ t)]

def lines (report : Report) : List StyledLine :=
  labelled .boldRed "error" report.failure.message ::
    ((report.details.map (labelled .yellow "details")).toList ++
      (report.suggestion.map (labelled .green "suggestion")).toList)

def display (color : Bool) (report : Report) : Text := StyledLine.renderAll color report.lines

/-! ## Failures of the library -/

def ofFailure (failure : Failure) : Report :=
  match failure with
  | .depthExceeded .. =>
    { failure
      suggestion := some ("Check the template and layout aliases for a reference chain " ++
        "that never repeats the same name")
      details := some ("Each template or layout is resolved once per run; " ++
        "this limit is only reached when that guard is bypassed") }
  | .invalidPath .. =>
    { failure, suggestion := some "Make sure every view has a non-empty name_single_code" }
  | .config .. | .toml =>
    { failure
      suggestion := some "Check the config file passed with --config or CBUILD_CONFIG" }
  | .runFile .. | .json =>
    { failure, suggestion := some "The run file must be a JSON object with a 'views' array" }
  | .io .. => { failure }

end Report

/-! ## Troubles -/

inductive Cause where
  | known (failure : Failure)
  | missingFile (message : Text)
  | other (message : Text)
deriving DecidableEq

def Cause.message : Cause → Text
  | .known failure => failure.message
  | .missingFile message => message
  | .other message => message

/-- A cause and its contexts, the outermost first. -/
structure Trouble where
  cause : Cause
  contexts : List Text := []
deriving DecidableEq

namespace Trouble

def ofFailure (failure : Failure) : Trouble := ⟨.known failure, []⟩

def within (context : Text) (trouble : Trouble) : Trouble :=
  { trouble with contexts := context :: trouble.contexts }

/-- The outermost message, and all the others from the outside to the cause. -/
def chain (trouble : Trouble) : Text × List Text :=
  match trouble.contexts with
  | [] => (trouble.cause.message, [])
  | outermost :: inner => (outermost, inner ++ [trouble.cause.message])

def report (trouble : Trouble) : Report :=
  let (message, others) := trouble.chain
  match trouble.cause with
  | .known failure => .ofFailure failure
  | .missingFile _ =>
    { failure := .config message
      suggestion := some "Check that the file exists and the path is correct" }
  | .other _ =>
    { failure := .config message
      details := if others.isEmpty then none else some (Text.join ": " others) }

end Trouble

end ViewBuilder
