import LosslessAudio.CommandLine
import LosslessAudio.Inspection.Printer
import LosslessAudio.Text.Quoted

/-!
# The program

The program carries out the task of a command line: what it prints, which file it leaves, whether it
failed, and what it logs.  Only records that pass the filter are shown, each as a line of plain text
or as a JSON object.
-/

set_option autoImplicit false

namespace LosslessAudio

/-! ## Log lines -/

/-- Whether a record is shown. -/
def Record.passes (filter : Option Level) (r : Record) : Bool :=
  filter.any (r.level ≤ ·)

/-- A record as the members of a JSON object behind its time, with the brace that closes it. -/
def Record.members (r : Record) : String :=
  "\"lvl\":\"" ++ r.level.name ++ "\",\"target\":\"" ++ r.origin.name ++ "\",\"msg\":" ++
    Text.quoted r.message ++ "\x7d"

/-- A record as a JSON object. -/
def Record.json (time : String) (r : Record) : String :=
  "\x7b\"ts\":\"" ++ time ++ "\"," ++ r.members

/-- A record as plain text. -/
def Record.plain (time : String) (r : Record) : String :=
  "[" ++ time ++ " " ++ r.level.name ++ " " ++ r.origin.name ++ "] " ++ r.message

/-- A record as a line of the log. -/
def LogFormat.line (format : LogFormat) (time : String) (r : Record) : String :=
  match format with
  | .plain => r.plain time
  | .json => r.json time

/-! ## Tasks -/

/-- What a task leads to. -/
structure Outcome where
  /-- What is printed. -/
  printed : String
  /-- The file that is left, if there is one. -/
  file : Option (Path × Bytes)
  failure : Option Failure
  deriving DecidableEq, Repr

namespace Outcome

/-- The exit code of a command line that was not understood. -/
def usageCode : Nat := 2

/-- The exit code. -/
def code (o : Outcome) : Nat :=
  if o.failure.isSome then 1 else 0

/-- The exit code of a program that broke down, as a shell reports it. -/
def brokenCode : Breakdown → Nat
  | .panic => 101
  | .abort => 134

/-- The line that reports a failure. -/
def failureLine (failure : Failure) : String :=
  "Error: " ++ failure.message

end Outcome

namespace Program

/-- Inspects a stream and prints the report. -/
def inspect [Memory] (surroundings : Surroundings) (strict : Bool) (input : Path) (yaml : Bool) :
    Logged (Except Breakdown Outcome) := do
  let shown := input.text
  Logged.note .info .inspection s!"Analyzing Shorten stream: {shown}"
  match surroundings.openInput input with
  | .error fault => return .ok ⟨"", none, some (.file fault)⟩
  | .ok reader =>
    if reader.isPipe then
      Logged.note .info .inspection "Pipe input: reporting header fields only"
    let failLevel := Transcoding.failLevelOf strict
    match ← Report.ofReader reader.isPipe reader CommandLine.defaultChunkSize failLevel with
    | .error breakdown => return .error breakdown
    | .ok (.error e) => return .ok ⟨"", none, some e⟩
    | .ok (.ok none) => return .ok ⟨Report.noHeader, none, none⟩
    | .ok (.ok (some report)) =>
      return .ok ⟨if yaml then report.yaml else report.table, none, none⟩

/-- Transcodes a stream. -/
def transcode [Memory] (surroundings : Surroundings) (t : Transcoding) :
    Logged (Except Breakdown Outcome) := do
  match ← t.run surroundings with
  | .error breakdown => return .error breakdown
  | .ok (recorder, .error e) => return .ok ⟨"", recorder.output, some e⟩
  | .ok (recorder, .ok ()) => return .ok ⟨"", recorder.output, none⟩

/-- Carries out the task of a command line. -/
def run [Memory] (surroundings : Surroundings) (i : Invocation) :
    Logged (Except Breakdown Outcome) :=
  match i.task with
  | .transcode t => transcode surroundings t
  | .inspect input yaml => inspect surroundings i.strict input yaml

end Program

end LosslessAudio
