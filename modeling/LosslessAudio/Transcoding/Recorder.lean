import LosslessAudio.AudioFile
import LosslessAudio.Failure
import LosslessAudio.File.Surroundings
import LosslessAudio.Text.Utf8
import LosslessAudio.Transcoding.Delivery

/-!
# Recording what is delivered

A recorder counts the frames of a stream and, if it was given a target, writes their samples to an
audio file.  The file is created when the parameters of the stream arrive; its name is the target's,
with the extension of the format.
-/

set_option autoImplicit false

namespace LosslessAudio

/-- A path as text. -/
def Path.text (p : Path) : String :=
  Text.ofBytes p.bytes

/-- A recorder. -/
structure Recorder where
  /-- Where to write the samples, if anywhere. -/
  target : Option Path
  format : AudioFormat
  /-- The audio file and its path, once it is created. -/
  audio : Option (Path × AudioFile)
  info : Option StreamInfo
  frames : Nat
  /-- How many samples of each channel were delivered. -/
  samples : Nat
  deriving DecidableEq, Repr

namespace Recorder

/-- A recorder before the first event. -/
def start (target : Option Path) (format : AudioFormat) : Recorder :=
  { target, format, audio := none, info := none, frames := 0, samples := 0 }

/-- An audio file has room for this many channels at most. -/
def maxChannels : Nat := 65535

variable (r : Recorder)

/-- The sample rate of the stream; zero as long as it is not known. -/
def sampleRate : Nat :=
  (r.info.map (·.sampleRate)).getD 0

/-- Creates the audio file of a stream. -/
def createAudio (creationFault? : Path → Option FileFault) (target : Path) (info : StreamInfo) :
    Except Failure (Path × AudioFile) := do
  ensure (info.channels ≤ maxChannels) .tooManyChannels
  AudioFile.createAt creationFault? target r.format (UInt32.ofNat info.sampleRate)
    (UInt16.ofNat info.channels)

/-- Where there is an audio file already, it is closed over the beginning of the new one, which
stands in the same place. -/
def supersede (fresh : AudioFile) : AudioFile :=
  match r.audio with
  | none => fresh
  | some (_, old) => fresh.onContents (old.onContents fresh.file.contents).close

/-- The parameters of the stream have arrived. -/
def begin (creationFault? : Path → Option FileFault) (info : StreamInfo) :
    Logged (Recorder × Except Failure Unit) := do
  Logged.note .info .recorder (infoMessage info)
  match r.target with
  | none => return ({ r with info }, .ok ())
  | some target =>
    match r.createAudio creationFault? target info with
    | .error e => return (r, .error e)
    | .ok (path, fresh) =>
      let shown := path.text
      Logged.note .info .recorder s!"Writing audio to {shown}"
      return ({ r with info, audio := some (path, r.supersede fresh) }, .ok ())
where
  /-- The log line for the parameters of a stream. -/
  infoMessage (info : StreamInfo) : String :=
    let version := info.version.toNat
    let type := info.sampleType.description
    let channels := info.channels
    let rate := info.sampleRate
    let blockSize := info.blockSize
    s!"Stream: version {version}, {type}, {channels} ch, {rate} Hz, block size {blockSize}"

/-- A frame has arrived. -/
def add (frame : Frame) : Recorder × Except Failure Unit :=
  match r.info with
  | none => (r, .error .frameBeforeInfo)
  | some _ =>
    let audio := r.audio.map fun (path, file) ↦ (path, file.writeSamples frame.samples)
    let samples := r.samples + frame.blockSize
    ({ r with audio, samples, frames := r.frames + 1 }, .ok ())

/-- An event has arrived. -/
def handle (creationFault? : Path → Option FileFault) :
    Event → Logged (Recorder × Except Failure Unit)
  | .info info => r.begin creationFault? info
  | .frame frame => return r.add frame

/-- All events have arrived. -/
def finish : Logged (Recorder × Except Failure Unit) := do
  match r.audio with
  | none => return (r, .ok ())
  | some (path, file) =>
    match file.finish with
    | .error fault => return (r, .error (.file fault))
    | .ok file =>
      let shown := path.text
      Logged.note .info .recorder s!"Audio written to {shown}"
      return ({ r with audio := some (path, file) }, .ok ())

/-- The path of the audio file and what it holds once it is closed. -/
def output : Option (Path × Bytes) :=
  r.audio.map fun (path, file) ↦ (path, file.close.toList)

end Recorder

end LosslessAudio
