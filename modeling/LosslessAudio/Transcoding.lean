import LosslessAudio.Duration
import LosslessAudio.Transcoding.Recorder

/-!
# Transcoding

Transcoding decodes a stream and writes its samples to an audio file.  A worker decodes while a
recorder writes; the recorder takes the events in the order in which they were delivered, so what it
writes does not depend on how the two are scheduled, as long as it does not write over the file that
the worker reads.
-/

set_option autoImplicit false

namespace LosslessAudio

/-- What to transcode, and where to. -/
structure Transcoding where
  input : Path
  output : Option Path
  format : AudioFormat
  /-- How many bytes are read at a time. -/
  chunkSize : Nat
  strict : Bool
  deriving DecidableEq, Repr

namespace Transcoding

/-- Findings at least as severe as this are failures. -/
def failLevelOf (strict : Bool) : Level :=
  if strict then .warn else .error

/-- Hands events to a recorder until one fails. -/
def record (creationFault? : Path → Option FileFault) :
    Recorder → List Event → Logged (Recorder × Except Failure Unit)
  | r, [] => return (r, .ok ())
  | r, event :: events => do
    match ← r.handle creationFault? event with
    | (r, .error e) => return (r, .error e)
    | (r, .ok ()) => record creationFault? r events

/-- Records a whole delivery.  A recorder learns of a worker that broke down, unless the program
ended with it. -/
def recordDelivery (creationFault? : Path → Option FileFault) (r : Recorder) (delivery : Delivery) :
    Logged (Except Breakdown (Recorder × Except Failure Unit)) := do
  match ← record creationFault? r delivery.events with
  | (r, .error e) => return .ok (r, .error e)
  | (r, .ok ()) =>
    match delivery.ending with
    | .failed e => return .ok (r, .error e)
    | .complete => return .ok (← r.finish)
    | .lost .panic =>
      match ← r.finish with
      | (r, .error e) => return .ok (r, .error e)
      | (r, .ok ()) => return .ok (r, .error .workerLost)
    | .lost .abort => return .error .abort

/-- The log line at the end. -/
def summary (r : Recorder) : String :=
  let time := Duration.text (Duration.seconds r.samples r.sampleRate)
  s!"Decoded {r.frames} frames, {r.samples} samples per channel ({time})"

variable (t : Transcoding)

/-- The log lines at the beginning. -/
def announce : Logged Unit := do
  let input := t.input.text
  let strict := t.strict
  Logged.note .info .transcoding s!"Decoding Shorten stream: {input} (strict mode: {strict})"
  match t.output with
  | some path =>
    let shown := path.text
    Logged.note .info .transcoding s!"Output path specified: {shown}"
  | none =>
    Logged.note .info .transcoding "No output path specified, decoding without writing audio"

/-- Transcodes, the worker first and then the recorder; the answer is the recorder at the end, and
whether it went well. -/
def run [Memory] (surroundings : Surroundings) :
    Logged (Except Breakdown (Recorder × Except Failure Unit)) := do
  let recorder := Recorder.start t.output t.format
  t.announce
  let opened := surroundings.openInput t.input
  if t.input = Path.standardInput then
    Logged.note .debug .transcoding "Input size unknown for pipe input"
  match opened with
  | .error fault => return .ok (recorder, .error (.file fault))
  | .ok _ =>
    let decoder := Decoder.ofLevel (failLevelOf t.strict)
    let delivery ← Delivery.ofSource true opened t.chunkSize decoder
    match ← recordDelivery surroundings.creationFault? recorder delivery with
    | .error breakdown => return .error breakdown
    | .ok (r, .error e) => return .ok (r, .error e)
    | .ok (r, .ok ()) =>
      Logged.note .info .transcoding (summary r)
      return .ok (r, .ok ())

end Transcoding

end LosslessAudio
