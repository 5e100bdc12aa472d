import LosslessAudio.Transcoding

/-!
# The command line

A command line names a task, its input and its options.  General options may stand before the name
of the task and behind it; one that is given in both places counts as it stands behind.  In either
place no option may be given twice.

Options are written `--name`, and those with a value `--name value` or `--name=value`.  Behind `--`
nothing is an option any more.
-/

set_option autoImplicit false

namespace LosslessAudio

/-- How log records are written. -/
inductive LogFormat where
  | plain
  | json
  deriving DecidableEq, Repr

/-- What is to be done. -/
inductive Task where
  | transcode (transcoding : Transcoding)
  | inspect (input : Path) (yaml : Bool)
  deriving DecidableEq, Repr

/-- A command line that was understood. -/
structure Invocation where
  /-- The least severe level whose records are shown; without one, none are. -/
  filter : Option Level
  logFormat : LogFormat
  /-- Whether to show how far the task has come. -/
  progress : Bool
  strict : Bool
  task : Task
  deriving DecidableEq, Repr

/-- Why a command line was not understood. -/
inductive UsageFault where
  | unknownOption (name : String)
  | repeatedOption (name : String)
  | missingValue (name : String)
  /-- A value for an option that takes none. -/
  | unexpectedValue (name : String)
  | invalidValue (name value : String)
  | missingTask
  | unknownTask (name : String)
  | missingInput
  | unexpectedArgument (text : String)
  deriving DecidableEq, Repr

/-- The wording of a fault of the command line. -/
def UsageFault.message : UsageFault → String
  | .unknownOption name => s!"unknown option --{name}"
  | .repeatedOption name => s!"option --{name} was given more than once"
  | .missingValue name => s!"option --{name} needs a value"
  | .unexpectedValue name => s!"option --{name} takes no value"
  | .invalidValue name value => s!"{value} is no value for option --{name}"
  | .missingTask => "a command is needed: decode or info"
  | .unknownTask name => s!"unknown command {name}"
  | .missingInput => "an input is needed"
  | .unexpectedArgument text => s!"unexpected argument {text}"

namespace CommandLine

/-! ## Arguments -/

/-- What an argument is by its form. -/
inductive Argument where
  /-- The mark behind which there are no options. -/
  | separator
  | option (name : String) (value : Option Bytes)
  /-- One hyphen and something behind it. -/
  | short
  | plain
  deriving DecidableEq, Repr

/-- The byte that options begin with. -/
def hyphen : UInt8 := 45

/-- The byte between an option and its value. -/
def equalsSign : UInt8 := 61

/-- What an argument is by its form. -/
def Argument.ofBytes : Bytes → Argument
  | first :: second :: rest =>
    if first ≠ hyphen then .plain
    else if second ≠ hyphen then .short
    else if rest = [] then .separator
    else
      let name := rest.takeWhile (· ≠ equalsSign)
      let value := (rest.drop name.length).tail?
      .option (Text.ofBytes name) value
  | _ => .plain

/-! ## Options -/

/-- The tasks by name. -/
inductive TaskName where
  | decode
  | info
  deriving DecidableEq, Repr

/-- The task that a text names. -/
def TaskName.ofString? : String → Option TaskName
  | "decode" => some .decode
  | "info" => some .info
  | _ => none

/-- An option and its value. -/
inductive Setting where
  | filter (level : Option Level)
  | strict
  | logFormat (format : LogFormat)
  | progress
  | output (path : Path)
  | format (format : AudioFormat)
  | chunkSize (bytes : Nat)
  | yaml
  deriving DecidableEq, Repr

/-- How an option is read. -/
inductive Reading where
  | switch (setting : Setting)
  | valued (read : Bytes → Option Setting)

/-- Numbers from here on are too large for a number of bytes. -/
def sizeLimit : Nat := 1 <<< 64

/-- Reads a number of bytes: digits, which a plus sign may precede. -/
def readSize (text : String) : Option Nat :=
  let digits :=
    match text.toList with
    | '+' :: digits => digits
    | digits => digits
  if digits ≠ [] ∧ digits.all Char.isDigit then
    let n := digits.foldl (fun n c ↦ 10 * n + (c.toNat - '0'.toNat)) 0
    if n < sizeLimit then some n else none
  else none

/-- Reads a filter. -/
def readFilter : String → Option (Option Level)
  | "off" => some none
  | "error" => some (some .error)
  | "warn" => some (some .warn)
  | "info" => some (some .info)
  | "debug" => some (some .debug)
  | "trace" => some (some .trace)
  | _ => none

/-- Reads the format of the log. -/
def readLogFormat : String → Option LogFormat
  | "plain" => some .plain
  | "json" => some .json
  | _ => none

/-- Reads the format of an audio file. -/
def readFormat (text : String) : Option AudioFormat :=
  [AudioFormat.wave, .bare].find? (·.name = text)

/-- Reads a path, which must not be empty. -/
def readPath (bytes : Bytes) : Option Path :=
  if bytes = [] then none else some ⟨bytes⟩

/-- The options that are known without a task. -/
def generalReading : String → Option Reading
  | "loglevel" => some (.valued fun v ↦ (readFilter (Text.ofBytes v)).map .filter)
  | "strict" => some (.switch .strict)
  | "log-format" => some (.valued fun v ↦ (readLogFormat (Text.ofBytes v)).map .logFormat)
  | "progress" => some (.switch .progress)
  | _ => none

/-- The options of a task. -/
def TaskName.reading : TaskName → String → Option Reading
  | .decode, "output-path" => some (.valued fun v ↦ (readPath v).map .output)
  | .decode, "format" => some (.valued fun v ↦ (readFormat (Text.ofBytes v)).map .format)
  | .decode, "chunk-size" => some (.valued fun v ↦ (readSize (Text.ofBytes v)).map .chunkSize)
  | .info, "yaml" => some (.switch .yaml)
  | _, name => generalReading name

/-! ## Reading arguments one after another -/

/-- An option with a value that is still to come. -/
structure Awaited where
  name : String
  read : Bytes → Option Setting

/-- What was read so far. -/
structure State where
  task : Option TaskName
  /-- The options before the name of the task. -/
  before : List (String × Setting)
  /-- The options behind it. -/
  behind : List (String × Setting)
  awaited : Option Awaited
  /-- Whether there are no options any more. -/
  separated : Bool
  plain : List Bytes

/-- Nothing was read yet. -/
def State.start : State :=
  { task := none, before := [], behind := [], awaited := none, separated := false, plain := [] }

namespace State

variable (s : State)

/-- The options of the place where reading is. -/
def here : List (String × Setting) :=
  if s.task.isNone then s.before else s.behind

/-- How an option is read at this place. -/
def reading (name : String) : Option Reading :=
  match s.task with
  | none => generalReading name
  | some task => task.reading name

/-- Adds an option. -/
def add (name : String) (setting : Setting) : Except UsageFault State := do
  ensure (s.here.all (·.1 ≠ name)) (.repeatedOption name)
  let s := { s with awaited := none }
  if s.task.isNone then return { s with before := s.before ++ [(name, setting)] }
  else return { s with behind := s.behind ++ [(name, setting)] }

/-- Adds an option with a value. -/
def addValue (name : String) (read : Bytes → Option Setting) (value : Bytes) :
    Except UsageFault State :=
  match read value with
  | none => .error (.invalidValue name (Text.ofBytes value))
  | some setting => s.add name setting

/-- Reads an option. -/
def readOption (name : String) (value : Option Bytes) : Except UsageFault State :=
  match s.reading name, value with
  | none, _ => .error (.unknownOption name)
  | some (.switch setting), none => s.add name setting
  | some (.switch _), some _ => .error (.unexpectedValue name)
  | some (.valued read), some value => s.addValue name read value
  | some (.valued read), none => .ok { s with awaited := some ⟨name, read⟩ }

/-- Reads an argument that is no option: the name of the task, or something the task is to work
on. -/
def readPlain (bytes : Bytes) : Except UsageFault State :=
  match s.task with
  | some _ => .ok { s with plain := s.plain ++ [bytes] }
  | none =>
    let name := Text.ofBytes bytes
    match TaskName.ofString? name with
    | none => .error (.unknownTask name)
    | some task => .ok { s with task := some task }

/-- Reads the next argument. -/
def next (bytes : Bytes) : Except UsageFault State :=
  match s.awaited, s.separated, Argument.ofBytes bytes with
  | some awaited, _, .plain => s.addValue awaited.name awaited.read bytes
  | some awaited, _, _ => .error (.missingValue awaited.name)
  | none, true, _ | none, false, .plain => s.readPlain bytes
  | none, false, .option name value => s.readOption name value
  | none, false, .short => .error (.unexpectedArgument (Text.ofBytes bytes))
  | none, false, .separator =>
    if s.task.isNone then .error .missingTask else .ok { s with separated := true }

/-- A setting, as it was given last. -/
def find? {α : Type} (pick : Setting → Option α) : Option α :=
  (s.behind ++ s.before).findSome? fun given ↦ pick given.2

/-- Whether a switch was given. -/
def has (setting : Setting) : Bool :=
  (s.behind ++ s.before).any (·.2 = setting)

/-- The input, the only thing that a task works on. -/
def input : Except UsageFault Path :=
  match s.plain with
  | [] => .error .missingInput
  | [bytes] =>
    match readPath bytes with
    | none => .error .missingInput
    | some path => .ok path
  | _ :: extra :: _ => .error (.unexpectedArgument (Text.ofBytes extra))

end State

/-- How many bytes are read at a time, if nothing else is said. -/
def defaultChunkSize : Nat := 65536

/-- The task with its input and its options. -/
def State.toTask (s : State) : TaskName → Path → Task
  | .decode, input =>
    .transcode
      { input
        output := s.find? fun | .output path => some path | _ => none
        format := (s.find? fun | .format format => some format | _ => none).getD .wave
        chunkSize := (s.find? fun | .chunkSize n => some n | _ => none).getD defaultChunkSize
        strict := s.has .strict }
  | .info, input => .inspect input (s.has .yaml)

/-- What was read as a whole. -/
def State.finish (s : State) : Except UsageFault Invocation :=
  match s.awaited, s.task with
  | some awaited, _ => .error (.missingValue awaited.name)
  | none, none => .error .missingTask
  | none, some task => do
    let input ← s.input
    return {
      filter := (s.find? fun | .filter level => some level | _ => none).getD (some .info)
      logFormat := (s.find? fun | .logFormat format => some format | _ => none).getD .plain
      progress := s.has .progress
      strict := s.has .strict
      task := s.toTask task input }

end CommandLine

/-- Understands the arguments behind the program's name. -/
def Invocation.ofArguments (arguments : List Bytes) : Except UsageFault Invocation := do
  let s ← arguments.foldlM CommandLine.State.next CommandLine.State.start
  s.finish

end LosslessAudio
