import ViewBuilder.CommandLine.Level

/-!
# The command line

The program compiles the views of a run file or lists the references in a markup file. The path of
the config file may also come from the environment; an argument counts for more than that, and one
of the subcommand for more than one of the program.
-/

namespace ViewBuilder

namespace CommandLine

namespace Fault

/-- Help and version are what was asked for. -/
def exitCode : Fault → Nat
  | help => 0
  | version => 0
  | _ => 2

end Fault

/-! ## Both levels -/

/-- What a level gives once its last value is checked. The path from the environment is looked at
when the level has none of its own, and must not be empty then. -/
def finish (reading : Reading) (environment : Option Text) : Except Fault Given :=
  match reading.settle with
  | .error fault => .error fault
  | .ok reading =>
    if reading.given.config.isNone && environment = some [] then .error .invalidValue
    else .ok reading.given

def noConflict (given : Given) : Except Fault Given :=
  if given.verbose && given.quiet then .error .conflict else .ok given

/-- The answer to a command line without a subcommand. -/
def withoutSubcommand (environment : Option Text) (given : Given) : Fault :=
  if given = {} ∧ environment = none then .nothingGiven else .missingSubcommand

/-- The answer to `help` with the arguments behind it. -/
def helpOn : List Text → Fault
  | [] => .help
  | [name] => if (Subcommand.ofName? name).isSome then .help else .unknownSubcommand
  | _ => .unknownSubcommand

end CommandLine

open CommandLine

inductive Command where
  | compile (file : Text) (priors : List Text) (format : Format)
  | scan (file : Text) (format : Format)
deriving DecidableEq, Repr

/-- A command line that is in order. -/
structure Invocation where
  quiet : Bool
  config : Option Text
  command : Command
deriving DecidableEq, Repr

namespace Invocation

def ofGiven (environment : Option Text) (outer inner : Given) (command : Command) : Invocation where
  quiet := outer.quiet || inner.quiet
  config := (inner.config.or outer.config).or environment
  command := command

/-- Reads the arguments of a subcommand, and then checks what came before it. -/
def parseSubcommand (environment : Option Text) (top : Reading) (level : Level)
    (arguments : List Text) (command : Text → Given → Command) : Except Fault Invocation := do
  let (reading, _) ← Reading.all level {} arguments
  let inner ← (finish reading environment).bind noConflict
  match inner.file with
  | none => .error .missingArgument
  | some file =>
    let outer ← (finish top environment).bind noConflict
    .ok (ofGiven environment outer inner (command file inner))

def parse (environment : Option Text) (arguments : List Text) : Except Fault Invocation := do
  match ← Reading.all .top {} arguments with
  | (top, none) => .error (withoutSubcommand environment (← finish top environment))
  | (_, some (.help, rest)) => .error (helpOn rest)
  | (top, some (.compile, rest)) =>
    parseSubcommand environment top .compile rest fun file given =>
      .compile file given.priors (given.format.getD .text)
  | (top, some (.scan, rest)) =>
    parseSubcommand environment top .scan rest fun file given =>
      .scan file (given.format.getD .text)

/-- The files that a command reads, in order. -/
def files (invocation : Invocation) : List Text :=
  match invocation.command with
  | .compile file priors _ => file :: invocation.config.toList ++ priors
  | .scan file _ => [file]

end Invocation

end ViewBuilder
