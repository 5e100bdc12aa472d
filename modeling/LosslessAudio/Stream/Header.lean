import LosslessAudio.Command
import LosslessAudio.Stream.Info
import LosslessAudio.Wave.Format

/-!
# Reading a stream header

A stream opens with the magic number `ajkg`, the version of the format, its global parameters and
a verbatim block that holds the WAVE header.  `StreamInfo.read` reads all of it as one unit: either
every field is there and in range, or the first field that is not gives the cause.

Version 0 transmits neither block size nor predictor order nor a count of means, and its numbers
have fixed Rice parameters.  A version above the known ones is a finding.
-/

set_option autoImplicit false

namespace LosslessAudio

namespace StreamInfo

/-- The magic number, the letters `ajkg`. -/
def magic : Nat := 0x616A6B67

/-- The latest version of the format whose meaning is known. -/
def latestVersion : UInt8 := 2

/-- More channels are not accepted. -/
def maxChannels : Nat := 8

/-- Larger blocks are not accepted. -/
def maxBlockSize : Nat := 65535

/-- The block size where the header does not transmit one. -/
def defaultBlockSize : Nat := 256

/-- Counts of means from here on are not accepted, nor are histories of that many samples. -/
def sizeLimit : Nat := (1 <<< 32 - 1) / 4

/-- The shortest accepted WAVE header. -/
def minimalWaveHeader : Nat := 44

/-- A WAVE header has to be shorter than this. -/
def waveHeaderLimit : Nat := 16384

/-- The Rice parameters of version 0, which are hints in later versions. -/
def typeParameter : Nat := 4

@[inherit_doc typeParameter]
def channelsParameter : Nat := 0

@[inherit_doc typeParameter]
def orderParameter : Nat := 2

@[inherit_doc typeParameter]
def meansParameter : Nat := 0

@[inherit_doc typeParameter]
def skipParameter : Nat := 1

/-- The Rice parameter of the length of a verbatim block. -/
def verbatimLengthParameter : Nat := 5

/-- The Rice parameter of each byte of a verbatim block. -/
def verbatimByteParameter : Nat := 8

/-- The Rice parameter that suits block sizes near `blockSize`: its binary logarithm. -/
def blockSizeParameter (blockSize : Nat) : Nat :=
  Nat.log2 (max 1 blockSize)

/-- The parameters that only versions above 0 transmit. -/
structure Sizes where
  blockSize : Nat
  maxOrder : Nat
  meanCount : Int32
  deriving DecidableEq, Repr

/-- The parameters of version 0. -/
def Sizes.default : Sizes := ⟨defaultBlockSize, 0, -1⟩

/-- Passes over `n` bytes of unknown meaning. -/
def skipBytes (r : BitReader) : Nat → Except ReadFault BitReader
  | 0 => .ok r
  | n + 1 => do
    let r ← r.skip 8
    skipBytes r n

/-- Reads the parameters that versions above 0 transmit, and passes over the bytes behind them. -/
def Sizes.read (version : UInt8) (r : BitReader) : Except Fault (Sizes × BitReader) :=
  if version = 0 then .ok (.default, r)
  else do
    let (blockSize, r) ← r.adaptive version (blockSizeParameter defaultBlockSize)
    let blockSize := blockSize.toNat
    ensure (0 < blockSize ∧ blockSize ≤ maxBlockSize) (.header (.invalidBlockSize blockSize))
    let (maxOrder, r) ← r.adaptive version orderParameter
    let (meanCount, r) ← r.adaptive version meansParameter
    ensure (meanCount.toNat < sizeLimit) (.header (.tooManyMeans meanCount.toNat))
    let (skipped, r) ← r.adaptive version skipParameter
    let r ← skipBytes r skipped.toNat
    return (⟨blockSize, maxOrder.toNat, meanCount.toInt32⟩, r)

/-- Everything in front of the WAVE header. -/
structure Preamble where
  version : UInt8
  sampleType : SampleType
  channels : Nat
  sizes : Sizes
  deriving DecidableEq, Repr

/-- Reads everything in front of the WAVE header. -/
def Preamble.read (r : BitReader) : Except Fault (Preamble × BitReader) := do
  let (found, r) ← r.bitsOfWidth 32 32
  ensure (found = magic) (.header (.invalidMagic found))
  let (version, r) ← r.bitsOfWidth 8 8
  let version := UInt8.ofNat version
  let (typeCode, r) ← r.adaptive version typeParameter
  let (channels, r) ← r.adaptive version channelsParameter
  let channels := channels.toNat
  ensure (channels ≠ 0) (.header .noChannels)
  ensure (channels ≤ maxChannels) (.header (.tooManyChannels channels))
  let (sizes, r) ← Sizes.read version r
  let samples := sizes.blockSize + contextFor sizes.maxOrder
  ensure (samples < sizeLimit) (.header (.historyTooLarge samples))
  match SampleType.ofCode? typeCode.toNat with
  | none => throw (.header (.unknownSampleType typeCode.toNat))
  | some sampleType => return (⟨version, sampleType, channels, sizes⟩, r)

/-- Reads the verbatim block with the WAVE header. -/
def readWaveHeader (r : BitReader) : Except Fault (Bytes × BitReader) := do
  let (code, r) ← r.rice Command.codeParameter
  ensure (Command.ofCode? code.toNat = some .verbatim) (.header .missingVerbatimBlock)
  let (size, r) ← r.rice verbatimLengthParameter
  let size := size.toNat
  ensure (minimalWaveHeader ≤ size ∧ size < waveHeaderLimit) (.header (.invalidVerbatimSize size))
  let (bytes, r) ← r.riceMany verbatimByteParameter size
  return (bytes.map (·.toUInt8), r)

/-- The debug line for a header that was read. -/
def summary (info : StreamInfo) : String :=
  s!"Shorten v{info.version.toNat}: {info.sampleType.description}, {info.channels} channels, " ++
  s!"block size {info.blockSize}, max LPC order {info.maxOrder}, nmean {info.meanCount.toInt}, " ++
  s!"{info.sampleRate} Hz"

/-- The parameters of a stream, put together from what its header says. -/
def ofParts (preamble : Preamble) (waveHeader : Bytes) (wave : WaveFormat) : StreamInfo :=
  { version := preamble.version
    sampleType := preamble.sampleType
    channels := preamble.channels
    blockSize := preamble.sizes.blockSize
    maxOrder := preamble.sizes.maxOrder
    meanCount := preamble.sizes.meanCount
    sampleRate := wave.sampleRate
    bitsPerSample := wave.bitsPerSample
    waveHeader }

/-- Reads a stream header; a finding at least as severe as `failLevel` refuses it. -/
def read (failLevel : Level) (r : BitReader) : Checked (StreamInfo × BitReader) := do
  let (preamble, r) ← Preamble.read r
  let (waveHeader, r) ← readWaveHeader r
  let wave ← WaveFormat.parse waveHeader
  -- the header is complete here, so a header that is read again reports this only once
  if latestVersion < preamble.version then
    Checked.report failLevel .warn .header (.header (.unexpectedVersion preamble.version))
  let info := ofParts preamble waveHeader wave
  Checked.note .debug .header info.summary
  return (info, r)

end StreamInfo

end LosslessAudio
