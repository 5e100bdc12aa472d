import LosslessAudio.File.Path
import LosslessAudio.Wave.Writer

/-!
# Audio files

Decoded samples are written either as a WAVE file or as the bare samples, both with 16 bits and the
low byte first.
-/

set_option autoImplicit false

namespace LosslessAudio

/-- The formats that samples are written in. -/
inductive AudioFormat where
  | wave
  /-- The samples and nothing else. -/
  | bare
  deriving DecidableEq, Repr

/-- The name of a format, which is also the extension of its files. -/
def AudioFormat.name : AudioFormat → String
  | .wave => "wav"
  | .bare => "pcm"

/-- An audio file open for writing. -/
inductive AudioFile where
  | wave (writer : WaveWriter)
  | bare (file : OpenFile)
  deriving DecidableEq, Repr

namespace AudioFile

/-- A new audio file; a WAVE file gets its header. -/
def create (format : AudioFormat) (sampleRate : UInt32) (channels : UInt16) :
    Except FileFault AudioFile :=
  match format with
  | .wave => do
    let writer ← WaveWriter.empty.configure sampleRate channels
    return .wave writer.writeHeader
  | .bare => .ok (.bare .empty)

/-- A new audio file at `target`, with the extension of its format; `creationFault?` says what
stands against creating a file at a path. -/
def createAt (creationFault? : Path → Option FileFault) (target : Path) (format : AudioFormat)
    (sampleRate : UInt32) (channels : UInt16) : Except FileFault (Path × AudioFile) :=
  let path := target.withSuffix format.name.toUTF8.toList
  match creationFault? path with
  | some fault => .error fault
  | none => (create format sampleRate channels).map (path, ·)

/-- Writes interleaved samples.  Bare samples are written one by one. -/
def writeSamples (samples : List Int16) : AudioFile → AudioFile
  | .wave writer => .wave (writer.writeSamples samples)
  | .bare file =>
    .bare (samples.foldl (fun f x ↦ f.write (Wire.bytes .littleEndian x).toArray) file)

/-- Brings the file into a state in which it may be left. -/
def finish : AudioFile → Except FileFault AudioFile
  | .wave writer => writer.finish.map .wave
  | .bare file => .ok (.bare file.flush)

/-- The open file below. -/
def file : AudioFile → OpenFile
  | .wave writer => writer.file
  | .bare file => file

/-- The same audio file on other contents. -/
def onContents (contents : Array UInt8) : AudioFile → AudioFile
  | .wave writer => .wave { writer with file := { writer.file with contents } }
  | .bare file => .bare { file with contents }

/-- What the file holds once it is closed. -/
def close (a : AudioFile) : Array UInt8 :=
  a.file.close

end AudioFile

end LosslessAudio
