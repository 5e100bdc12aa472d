import LosslessAudio.File.Open
import LosslessAudio.Wave.Chunk

/-!
# Writing WAVE files

A WAVE file is written before its length is known.  The header goes out with zeros in its two size
fields; `finish` puts the sizes there, at the places the header remembered, and goes back to the end
of the data, so that more samples may follow and `finish` be called again.
-/

set_option autoImplicit false

namespace LosslessAudio

/-- A WAVE file with 16-bit samples, open for writing. -/
structure WaveWriter where
  file : OpenFile
  format : FormatChunk
  /-- Where the size of the file belongs; zero as long as there is no header. -/
  riffSizePosition : Nat
  /-- Where the size of the sample data belongs; zero as long as there is no header. -/
  dataSizePosition : Nat
  /-- How many bytes of samples were written. -/
  dataWritten : Nat
  deriving DecidableEq, Repr

namespace WaveWriter

/-- The only width of samples that is written. -/
def sampleWidth : UInt16 := 16

/-- The length of everything before the samples. -/
def headerLength : Nat := 44

/-- The part of the file that its size field does not count. -/
def uncounted : Nat := 8

/-- A writer on a file without contents. -/
def empty : WaveWriter :=
  { file := .empty
    format := .pcm 44100 2 sampleWidth
    riffSizePosition := 0
    dataSizePosition := 0
    dataWritten := 0 }

variable (w : WaveWriter)

/-- Writes bytes at the end. -/
def put (bytes : Bytes) : WaveWriter :=
  { w with file := w.file.write bytes.toArray }

/-- Sets the format, which is possible until samples are written. -/
def configure (sampleRate : UInt32) (channels : UInt16) : Except FileFault WaveWriter := do
  ensure (w.dataWritten = 0) .formatLocked
  return { w with format := .pcm sampleRate channels sampleWidth }

/-- Writes the header, its size fields being zero. -/
def writeHeader : WaveWriter :=
  let w := w.put (Chunk.tagOf "RIFF")
  let w := { w with file := w.file.flush, riffSizePosition := w.file.endPosition }
  let w := w.put (Wire.littleEndian 4 0)
  let w := w.put (Chunk.tagOf "WAVE")
  let w := w.put w.format.toChunk.bytes
  let w := w.put (Chunk.tagOf "data")
  let w := { w with file := w.file.flush, dataSizePosition := w.file.endPosition }
  w.put (Wire.littleEndian 4 0)

/-- Writes interleaved samples. -/
def writeSamples (samples : List Int16) : WaveWriter :=
  let bytes := Wire.bytes .littleEndian samples
  let w := w.put bytes
  { w with dataWritten := w.dataWritten + bytes.length }

/-- Puts a number at some place of the file. -/
def patch (position n : Nat) : WaveWriter :=
  { w with file := (w.file.seek position).write (Wire.littleEndian 4 n).toArray }

/-- Puts the sizes where they belong. -/
def finish : Except FileFault WaveWriter := do
  let riffSize := w.dataWritten + headerLength - uncounted
  ensure (riffSize < Chunk.lengthLimit) .dataTooLarge
  let w' := (w.patch w.dataSizePosition w.dataWritten).patch w.riffSizePosition riffSize
  return { w with file := (w'.file.seek w.file.endPosition).flush }

/-- What the file holds once it is closed. -/
def close : Array UInt8 :=
  w.file.close

end WaveWriter

end LosslessAudio
