import ViewBuilder.Program

/-!
# The `cbuild` program

Reads the files that the command line names and hands their texts on. Exit status is 0 when the
command is done, 1 when a report of a failure was printed, and 2 when the command line was not
accepted.
-/

namespace ViewBuilder.Main

open CommandLine (Fault)

def version : String := "cbuild 0.3.2"

def help : String :=
  "Component builder - compile component metadata into extension source\n\n" ++
  "Usage: cbuild [OPTIONS] <COMMAND>\n\n" ++
  "Commands:\n" ++
  "  compile <RUN_FILE> [--prior <PRIOR>]... [--format text|json]\n" ++
  "          Compile the views of a run file\n" ++
  "  scan <FILE> [--format text|json]\n" ++
  "          List template and layout references in a markup file\n\n" ++
  "Options:\n" ++
  "  -v, --verbose          Enable debug logging\n" ++
  "  -q, --quiet            Only print errors\n" ++
  "  -c, --config <CONFIG>  Path to the compiler config file (TOML) [env: CBUILD_CONFIG]\n" ++
  "  -h, --help             Print help\n" ++
  "  -V, --version          Print version"

def advice : Fault → String
  | .unknownSubcommand => "unrecognized subcommand"
  | .missingArgument => "a required argument was not provided"
  | .conflict => "an argument cannot be used again or with another one"
  | .unknownArgument => "unexpected argument found"
  | .invalidValue => "an argument has no value or an invalid one"
  | .tooManyValues => "an argument takes no value"
  | _ => "a subcommand is required but one was not provided"

/-- Prints what a command line is answered that asks for nothing to be done. -/
def answer (fault : Fault) : IO Unit :=
  match fault with
  | .help => IO.println help
  | .version => IO.println version
  | .nothingGiven => IO.eprintln help
  | fault => IO.eprintln ("error: " ++ advice fault ++ "\n\nFor more information, try '--help'.")

def faultOf : IO.Error → ReadFault
  | .noFileOrDirectory .. => .missing
  | error => .other (toString error).toList

def read (path : Text) : IO (Text × Except ReadFault Text) := do
  try
    return (path, textOfBytes (← IO.FS.readBinFile (String.ofList path)))
  catch error => return (path, .error (faultOf error))

/-- Whether output to a stream is coloured. -/
def isColored (stream : IO.FS.Stream) : IO Bool := do
  if (← IO.getEnv "NO_COLOR").isSome then return false
  stream.isTty

def perform (invocation : Invocation) : IO UInt32 := do
  let files ← invocation.files.mapM read
  match Program.perform (← isColored (← IO.getStdout)) (.ofRead files) invocation with
  | .ok t =>
    IO.print (String.ofList t)
    return 0
  | .error trouble =>
    IO.eprint (String.ofList (trouble.report.display (← isColored (← IO.getStderr))))
    return 1

end ViewBuilder.Main

open ViewBuilder in
def main (arguments : List String) : IO UInt32 := do
  let environment := (← IO.getEnv "CBUILD_CONFIG").map String.toList
  match Invocation.parse environment (arguments.map String.toList) with
  | .ok invocation => Main.perform invocation
  | .error fault =>
    Main.answer fault
    return fault.exitCode.toUInt32
