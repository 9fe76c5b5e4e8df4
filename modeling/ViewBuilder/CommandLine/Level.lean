import ViewBuilder.Text

/-!
# One level of the command line

A command line has two levels: the arguments of the program, and behind the name of a subcommand
the arguments of that. A level is read from left to right. A value that has been read is held back
and is only checked when the next argument that it does not matter to has been recognised, so of
two faults it may be the later one that is told.
-/

namespace ViewBuilder.CommandLine

inductive Fault where
  | unknownSubcommand
  | missingArgument
  /-- Two arguments that exclude each other, or one that may come only once. -/
  | conflict
  | unknownArgument
  | invalidValue
  | tooManyValues
  | missingSubcommand
  /-- Not a single argument. -/
  | nothingGiven
  | help
  | version
deriving DecidableEq, Repr

inductive Format where
  | text
  | json
deriving DecidableEq, Repr

def Format.ofName? (t : Text) : Option Format :=
  if t = "text".toList then some .text
  else if t = "json".toList then some .json
  else none

inductive Subcommand where
  | compile
  | scan
  | help
deriving DecidableEq, Repr

def Subcommand.ofName? (t : Text) : Option Subcommand :=
  if t = "compile".toList then some .compile
  else if t = "scan".toList then some .scan
  else if t = "help".toList then some .help
  else none

/-! ## What a level knows -/

inductive Level where
  | top
  | compile
  | scan
deriving DecidableEq, Repr

inductive Flag where
  | verbose
  | quiet
  | help
  | version
deriving DecidableEq, Repr

/-- What takes a value. -/
inductive Slot where
  | config
  | prior
  | format
  /-- The argument without a name. -/
  | file
deriving DecidableEq, Repr

inductive Known where
  | flag (flag : Flag)
  | option (slot : Slot)
deriving DecidableEq, Repr

namespace Level

def long? (level : Level) (name : Text) : Option Known :=
  match String.ofList name, level with
  | "verbose", _ => some (.flag .verbose)
  | "quiet", _ => some (.flag .quiet)
  | "help", _ => some (.flag .help)
  | "version", .top => some (.flag .version)
  | "config", _ => some (.option .config)
  | "prior", .compile => some (.option .prior)
  | "format", .compile => some (.option .format)
  | "format", .scan => some (.option .format)
  | _, _ => none

def short? (level : Level) (c : Char) : Option Known :=
  match c, level with
  | 'v', _ => some (.flag .verbose)
  | 'q', _ => some (.flag .quiet)
  | 'h', _ => some (.flag .help)
  | 'V', .top => some (.flag .version)
  | 'c', _ => some (.option .config)
  | _, _ => none

end Level

/-! ## What was given -/

structure Given where
  verbose : Bool := false
  quiet : Bool := false
  config : Option Text := none
  priors : List Text := []
  format : Option Format := none
  file : Option Text := none
deriving DecidableEq, Repr

namespace Given

/-- Takes the value of an option or of the file. Only `--prior` may come again. -/
def put (given : Given) (slot : Slot) (value : Text) : Except Fault Given :=
  match slot with
  | .config =>
    if given.config.isSome then .error .conflict
    else if value.isEmpty then .error .invalidValue
    else .ok { given with config := some value }
  | .prior =>
    if value.isEmpty then .error .invalidValue
    else .ok { given with priors := given.priors ++ [value] }
  | .format =>
    if given.format.isSome then .error .conflict
    else
      match Format.ofName? value with
      | none => .error .invalidValue
      | some format => .ok { given with format := some format }
  | .file =>
    if value.isEmpty then .error .invalidValue else .ok { given with file := some value }

def raise (given : Given) : Flag → Except Fault Given
  | .verbose => if given.verbose then .error .conflict else .ok { given with verbose := true }
  | .quiet => if given.quiet then .error .conflict else .ok { given with quiet := true }
  | .help => .error .help
  | .version => .error .version

end Given

/-! ## Reading -/

/-- What has been read of a level. -/
structure Reading where
  given : Given := {}
  /-- What still has to be checked; an option whose value has not come has none. -/
  pending : Option (Slot × Option Text) := none
  /-- Whether `--` has come, behind which nothing is a flag or an option. -/
  trailing : Bool := false

namespace Reading

/-- Checks what is pending. -/
def settle (reading : Reading) : Except Fault Reading :=
  match reading.pending with
  | none => .ok reading
  | some (_, none) => .error .invalidValue
  | some (slot, some value) =>
    (reading.given.put slot value).map fun given => { reading with given, pending := none }

def withGiven (reading : Reading) (given : Except Fault Given) : Except Fault Reading :=
  given.map fun given => { reading with given }

def flag (reading : Reading) (flag : Flag) : Except Fault Reading :=
  reading.settle.bind fun reading => reading.withGiven (reading.given.raise flag)

/-- An option with its value in the same argument. -/
def attached (reading : Reading) (slot : Slot) (value : Text) : Except Fault Reading :=
  reading.settle.bind fun reading => reading.withGiven (reading.given.put slot value)

/-- A value, or an option whose value is the next argument. -/
def hold (reading : Reading) (slot : Slot) (value : Option Text) : Except Fault Reading :=
  reading.settle.map fun reading => { reading with pending := some (slot, value) }

/-- The option whose value comes next. -/
def awaited? (reading : Reading) : Option Slot :=
  match reading.trailing, reading.pending with
  | false, some (slot, none) => some slot
  | _, _ => none

def hasFile (reading : Reading) : Bool :=
  reading.given.file.isSome || reading.pending.any fun pending => pending.1 = .file

def long (level : Level) (reading : Reading) (name : Text) (value : Option Text) :
    Except Fault Reading :=
  match level.long? name, value with
  | none, _ => .error .unknownArgument
  | some (.flag _), some _ => .error .tooManyValues
  | some (.flag flag), none => reading.flag flag
  | some (.option slot), some value => reading.attached slot value
  | some (.option slot), none => reading.hold slot none

/-- The letters behind a dash. The first option takes what is behind it as its value. -/
def shorts (level : Level) (reading : Reading) : Text → Except Fault Reading
  | [] => .ok reading
  | c :: rest =>
    match level.short? c with
    | none => .error .unknownArgument
    | some (.flag flag) => (reading.flag flag).bind fun reading => shorts level reading rest
    | some (.option slot) =>
      match rest with
      | [] => reading.hold slot none
      | '=' :: value => reading.attached slot value
      | value => reading.attached slot value

/-- An argument that is neither a flag nor an option. -/
def word (level : Level) (reading : Reading) (t : Text) : Except Fault Reading :=
  match reading.awaited? with
  | some slot => .ok { reading with pending := some (slot, some t) }
  | none =>
    if level = .top then
      if reading.trailing && (Subcommand.ofName? t).isSome then .error .unknownArgument
      else .error .unknownSubcommand
    else if reading.hasFile then .error .unknownArgument
    else reading.hold .file (some t)

/-- Splits `name=value` at the first equals sign. -/
def splitValue (t : Text) : Text × Option Text :=
  match Text.cut? ['='] t with
  | some (name, value) => (name, some value)
  | none => (t, none)

def argument (level : Level) (reading : Reading) (t : Text) : Except Fault Reading :=
  if reading.trailing then reading.word level t
  else
    match t with
    | ['-', '-'] => .ok { reading with trailing := true }
    | '-' :: '-' :: t => reading.long level (splitValue t).1 (splitValue t).2
    | '-' :: c :: rest => reading.shorts level (c :: rest)
    | t => reading.word level t

/-- The subcommand that an argument names, unless it is the value of an option. -/
def entered? (level : Level) (reading : Reading) (t : Text) : Option Subcommand :=
  if level = .top && !reading.trailing && reading.awaited?.isNone then Subcommand.ofName? t
  else none

/-- Reads a level up to its end or to a subcommand, which has the rest of the arguments. -/
def all (level : Level) (reading : Reading) :
    List Text → Except Fault (Reading × Option (Subcommand × List Text))
  | [] => .ok (reading, none)
  | t :: rest =>
    match reading.entered? level t with
    | some subcommand => .ok (reading, some (subcommand, rest))
    | none =>
      match reading.argument level t with
      | .error fault => .error fault
      | .ok reading => all level reading rest

end Reading

end ViewBuilder.CommandLine
