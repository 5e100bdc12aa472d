import LosslessAudio.Bits

/-!
# What a stream header says

`StreamInfo` holds the parameters that the header of a stream fixes for all of it.  How many
samples each channel keeps for prediction, and the bias of linear prediction, follow from them.
-/

set_option autoImplicit false

namespace LosslessAudio

/-- How the samples were stored before compression. -/
inductive SampleType where
  /-- Signed, 16 bits, high byte first. -/
  | bigEndian
  /-- Signed, 16 bits, low byte first. -/
  | littleEndian
  deriving DecidableEq, Repr

namespace SampleType

/-- The sample type with a given code. -/
def ofCode? : Nat → Option SampleType
  | 3 => some .bigEndian
  | 5 => some .littleEndian
  | _ => none

/-- What every running mean starts from. -/
def initialMean : SampleType → Int32
  | .bigEndian | .littleEndian => 0

/-- A sample type in words. -/
def description : SampleType → String
  | .bigEndian => "signed 16-bit big-endian"
  | .littleEndian => "signed 16-bit little-endian"

end SampleType

/-- The parameters of a stream. -/
structure StreamInfo where
  version : UInt8
  sampleType : SampleType
  channels : Nat
  blockSize : Nat
  /-- The highest order of linear prediction the stream uses. -/
  maxOrder : Nat
  /-- Over how many earlier blocks the offset of a channel is averaged; -1 where the version knows
  no such means. -/
  meanCount : Int32
  sampleRate : Nat
  bitsPerSample : Nat
  /-- The header of the WAVE file the stream was made from. -/
  waveHeader : Bytes
  deriving DecidableEq, Repr

namespace StreamInfo

/-- Even without linear prediction this many samples are kept. -/
def minimalContext : Nat := 3

/-- How many samples of each channel are kept for prediction, given the highest order. -/
def contextFor (maxOrder : Nat) : Nat :=
  max minimalContext maxOrder

/-- How many samples of each channel are kept for prediction. -/
def contextLength (info : StreamInfo) : Nat :=
  contextFor info.maxOrder

/-- The bias of the sums of linear prediction, given the version. -/
def predictionBiasFor (version : UInt8) : Int32 :=
  if 1 < version then 32 else 0

/-- The bias of the sums of linear prediction. -/
def predictionBias (info : StreamInfo) : Int32 :=
  predictionBiasFor info.version

end StreamInfo

end LosslessAudio
