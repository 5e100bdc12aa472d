import LosslessAudio.Program
import Std.Time.DateTime

/-!
# The command

The outermost layer: it reads the arguments and the input, has the program carried out, and writes
what comes of it.  Nothing is decided here.
-/

set_option autoImplicit false

namespace LosslessAudio.Main

/-- What the machine grants is found out when it is asked. -/
local instance machine : Memory :=
  .ample

/-- A refusal by the system as a fault of a file. -/
def faultOf (e : IO.Error) : FileFault :=
  match e with
  | .noFileOrDirectory _ _ _ => .notFound
  | .inappropriateType _ 20 _ => .notDirectory
  | .inappropriateType _ _ _ => .isDirectory
  | other => .system (toString other)

/-- What is read at a path. -/
def readSource (p : Path) : IO Source := do
  match ← (IO.FS.readBinFile p.text).toBaseIO with
  | .ok contents => return .file contents.toList
  | .error e =>
    let fault := faultOf e
    return if fault = .isDirectory then .unreadable fault else .closed fault

/-- Everything on the standard input. -/
partial def readAll (stream : IO.FS.Stream) (before : ByteArray) : IO ByteArray := do
  let more ← stream.read 65536
  if more.isEmpty then return before else readAll stream (before ++ more)

/-- The path that the input is read from. -/
def inputOf (i : Invocation) : Path :=
  match i.task with
  | .transcode t => t.input
  | .inspect input _ => input

/-- The surroundings of a task; `refusal` is what stands against creating its file. -/
def surroundings (i : Invocation) : IO (Option FileFault → Surroundings) := do
  let input := inputOf i
  if input = Path.standardInput then
    let bytes ← readAll (← IO.getStdin) .empty
    return fun refusal ↦
      ⟨bytes.toList, fun _ ↦ .closed .notFound, fun _ ↦ refusal, fun p q ↦ p = q, []⟩
  else
    let source ← readSource input
    return fun refusal ↦ ⟨[], fun _ ↦ source, fun _ ↦ refusal, fun p q ↦ p = q, []⟩

/-- Carries out a task.  Where its file cannot be written, it is carried out as if the file could
not have been created. -/
def carryOut (i : Invocation) : IO (Logged (Except Breakdown Outcome)) := do
  let surroundings ← surroundings i
  let result := Program.run (surroundings none) i
  match result.value.toOption.bind (·.file) with
  | none => return result
  | some (path, contents) =>
    match ← (IO.FS.writeBinFile path.text ⟨contents.toArray⟩).toBaseIO with
    | .ok () => return result
    | .error e => return Program.run (surroundings (some (faultOf e))) i

/-- The time, as log lines give it. -/
def now : IO String := do
  let t := Std.Time.PlainDateTime.ofWallTime ((← Std.Time.Timestamp.now).toWallTime .zero)
  let two (n : Int) : String := Text.padded 2 n.toNat
  let year := Text.padded 4 t.date.year.toInt.toNat
  let month := two t.date.month.val
  let day := two t.date.day.val
  let hour := two t.time.hour.val
  let minute := two t.time.minute.val
  let second := two t.time.second.val
  return s!"{year}-{month}-{day}T{hour}:{minute}:{second}Z"

/-- Carries out the task of a command line, and reports. -/
def run (i : Invocation) : IO UInt32 := do
  let result ← carryOut i
  let time ← now
  for record in result.log do
    if record.passes i.filter then
      IO.eprintln (i.logFormat.line time record)
  match result.value with
  | .error breakdown => return UInt32.ofNat (Outcome.brokenCode breakdown)
  | .ok outcome =>
    IO.print outcome.printed
    match outcome.failure with
    | none => pure ()
    | some failure => IO.eprintln (Outcome.failureLine failure)
    return UInt32.ofNat outcome.code

end LosslessAudio.Main

/-- The command itself. -/
def main (arguments : List String) : IO UInt32 :=
  open LosslessAudio in
  match Invocation.ofArguments (arguments.map fun a ↦ a.toUTF8.toList) with
  | .ok i => Main.run i
  | .error fault => do
    IO.eprintln s!"error: {fault.message}"
    return UInt32.ofNat Outcome.usageCode
