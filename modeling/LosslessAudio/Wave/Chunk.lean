import LosslessAudio.File.Fault
import LosslessAudio.Wire

/-!
# Chunks

A WAVE file is made of chunks: a tag of four bytes, the length of the body, the body, and a byte of
padding behind a body of odd length.  All numbers are little-endian.  `FormatChunk` is the chunk
that says how the samples are stored.
-/

set_option autoImplicit false

namespace LosslessAudio

/-- One chunk of a WAVE file. -/
structure Chunk where
  /-- The four bytes that say what the chunk holds. -/
  tag : Bytes
  body : Bytes
  deriving DecidableEq, Repr

namespace Chunk

/-- The four bytes a tag consists of. -/
def tagOf (name : String) : Bytes :=
  name.toList.map fun c ↦ c.val.toUInt8

/-- Bodies as long as this and longer have no length field. -/
def lengthLimit : Nat := 1 <<< 32

/-- What is added behind a body so that the next chunk begins at an even place. -/
def padding (body : Bytes) : Bytes :=
  if body.length % 2 = 1 then [0] else []

/-- The bytes of a chunk. -/
def bytes (c : Chunk) : Bytes :=
  c.tag ++ Wire.littleEndian 4 c.body.length ++ c.body ++ padding c.body

/-- The bytes of a chunk, unless its body is too long. -/
def bytes? (c : Chunk) : Except FileFault Bytes := do
  ensure (c.body.length < lengthLimit) .chunkTooLarge
  return c.bytes

/-- A chunk whose body is a record. -/
def ofRecord {α : Type} [Wire α] (tag : Bytes) (record : α) : Chunk :=
  ⟨tag, Wire.bytes .littleEndian record⟩

end Chunk

/-- How the samples of a WAVE file are stored. -/
structure FormatChunk where
  formatTag : UInt16
  channels : UInt16
  sampleRate : UInt32
  /-- How many bytes a second takes. -/
  byteRate : UInt32
  /-- How many bytes one sample of every channel takes. -/
  blockAlign : UInt16
  bitsPerSample : UInt16
  deriving DecidableEq, Repr

namespace FormatChunk

/-- The format tag of linear PCM. -/
def pcmTag : UInt16 := 1

/-- The format of linear PCM with the given parameters. -/
def pcm (sampleRate : UInt32) (channels bitsPerSample : UInt16) : FormatChunk :=
  let blockAlign := channels * (bitsPerSample / 8)
  { formatTag := pcmTag
    channels
    sampleRate
    byteRate := sampleRate * blockAlign.toUInt32
    blockAlign
    bitsPerSample }

instance : Wire FormatChunk where
  bytes order f := Wire.bytes order
    (f.formatTag, f.channels, f.sampleRate, f.byteRate, f.blockAlign, f.bitsPerSample)

/-- The chunk itself. -/
def toChunk (f : FormatChunk) : Chunk :=
  .ofRecord (Chunk.tagOf "fmt ") f

end FormatChunk

end LosslessAudio
