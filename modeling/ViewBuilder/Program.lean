import ViewBuilder.Build
import ViewBuilder.CommandLine
import ViewBuilder.Config.File
import ViewBuilder.Files

/-!
# The program

A command reads its files one after the other and stops at the first trouble, so of several faults
the one in the file that is read first is told. What it prints comes at the very end.
-/

namespace ViewBuilder

open CommandLine (Format)

/-- How output is written. -/
structure Display where
  color : Bool
  quiet : Bool
  format : Format

namespace Display

/-- JSON is printed also by a quiet program. -/
def print (display : Display) (json : Json) (lines : List StyledLine) : Text :=
  match display.format with
  | .json => json.pretty ++ "\n"
  | .text => if display.quiet then [] else StyledLine.renderAll display.color lines

end Display

namespace Program

/-- Reads a file; `purpose` says what it was wanted for. -/
def readFile (read : FileReader) (purpose path : Text) : Except Trouble Text :=
  (read path).mapError fun fault =>
    (Trouble.mk fault.cause []).within ("Failed to read " ++ purpose ++ path)

def known (outcome : Except Failure α) : Except Trouble α := outcome.mapError Trouble.ofFailure

def noConfig : Text :=
  "No compiler config: pass --config, set CBUILD_CONFIG or add a 'config' object to the run file"

/-- The config of a build: the one in the config file if there is one, else the one in the run
file. -/
def configFor (read : FileReader) (path : Option Text) (inline : Option Config) :
    Except Trouble Config :=
  match path, inline with
  | some path, _ => do
    let t ← readFile read "compiler config from " path
    (known (Config.parseFile t)).mapError
      (Trouble.within ("Failed to parse compiler config from " ++ path))
  | none, some config => known config.validate
  | none, none => .error (.ofFailure (.config noConfig))

def build (read : FileReader) (config : Option Text) (path : Text) (priors : List Text) :
    Except Trouble Build := do
  let t ← readFile read "run file " path
  let file ← known (RunFile.parse t path)
  let config ← configFor read config file.config
  let priors ← priors.mapM (readFile read "prior output ")
  known (Build.ofRunFile config file priors)

def scan (read : FileReader) (path : Text) : Except Trouble References :=
  (readFile read [] path).map References.scan

/-- Carries out a command, and says what it prints. -/
def perform (color : Bool) (read : FileReader) (invocation : Invocation) : Except Trouble Text :=
  match invocation.command with
  | .compile file priors format =>
    (build read invocation.config file priors).map fun build =>
      Display.print ⟨color, invocation.quiet, format⟩ build.toJson build.lines
  | .scan file format =>
    (scan read file).map fun references =>
      Display.print ⟨color, invocation.quiet, format⟩ references.toJson references.lines

end Program

end ViewBuilder
