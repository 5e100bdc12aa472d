import LosslessAudio.Memory

/-!
# The history of a channel

Each channel keeps three things between commands: the samples right before the current block, from
which the block is predicted; the block itself; and the means of earlier blocks, from which the
offset of the next block is estimated.  All arithmetic is 32 bits wide and wraps around.

The operations here are those that follow one decoded block: `pushMean` records its mean,
`carryOver` makes its end the context of the next block, and `shiftBlock` gives back the low bits
that were removed before compression.
-/

set_option autoImplicit false

namespace LosslessAudio

namespace Sample

/-- A sample shifted to the left; bits above the 32nd are lost. -/
def shiftLeft (x : Int32) (n : Nat) : Int32 :=
  x <<< Int32.ofNat (n % 32)

/-- A sample shifted to the right; its sign is kept. -/
def shiftRight (x : Int32) (n : Nat) : Int32 :=
  x >>> Int32.ofNat (n % 32)

end Sample

/-- What a channel keeps between commands, each list with the oldest entry first. -/
structure ChannelHistory where
  /-- The samples right before the current block. -/
  context : List Int32
  /-- The current block, and behind it what is left of a longer one. -/
  block : List Int32
  /-- The means of earlier blocks. -/
  means : List Int32
  deriving DecidableEq, Repr

namespace ChannelHistory

/-- How many means are kept, for a count that may be negative. -/
def keptMeans (meanCount : Int32) : Nat :=
  max 1 meanCount.toInt.toNat

/-- The history of a channel before its first block. -/
def initial (contextLength blockSize : Nat) (meanCount initialMean : Int32) : ChannelHistory :=
  { context := List.replicate contextLength 0
    block := List.replicate blockSize 0
    means := List.replicate (keptMeans meanCount) initialMean }

/-- Reserves room for a history, and gives it as it is before the first block. -/
def create [Memory] (contextLength blockSize : Nat) (meanCount initialMean : Int32) :
    Except Fault ChannelHistory := do
  Memory.reserve .samples (contextLength + blockSize)
  Memory.reserve .means (keptMeans meanCount)
  return initial contextLength blockSize meanCount initialMean

variable (h : ChannelHistory)

/-- Context and block in one row. -/
def samples : List Int32 :=
  h.context ++ h.block

/-- The sample at place `i` of the block; places below 0 lie in the context. -/
def sample? (i : Int) : Option Int32 :=
  let place := h.context.length + i
  if place < 0 then none else h.samples[place.toNat]?

/-- The current block, given its length. -/
def current (blockSize : Nat) : List Int32 :=
  h.block.take blockSize

/-- The history with another block at the front of the old one. -/
def withBlock (block : List Int32) : ChannelHistory :=
  { h with block := block ++ h.block.drop block.length }

/-- The offset of the next block: the average of the kept means. -/
def offset (version : UInt8) (meanCount : Int32) (bitshift : Nat) : Int32 :=
  if meanCount = 0 then h.means.headD 0
  else
    let bias := if version < 2 then 0 else meanCount / 2
    let sum := (h.means.take meanCount.toInt.toNat).foldl (· + ·) bias
    let average := sum / meanCount
    if version < 2 then average else Sample.shiftRight average (min 1 bitshift)

/-- The mean of the current block, as it is recorded. -/
def blockMean (version : UInt8) (blockSize bitshift : Nat) : Int32 :=
  let bias := if version < 2 then 0 else Int32.ofNat (blockSize / 2)
  let sum := (h.current blockSize).foldl (· + ·) bias
  let mean := sum / Int32.ofNat blockSize
  if version < 2 then mean else Sample.shiftLeft mean bitshift

/-- Records the mean of the current block and forgets the oldest one, where means are kept. -/
def pushMean (version : UInt8) (meanCount : Int32) (blockSize bitshift : Nat) : ChannelHistory :=
  if meanCount ≤ 0 then h
  else
    let n := meanCount.toInt.toNat
    let mean := h.blockMean version blockSize bitshift
    { h with means := (h.means.take n).drop 1 ++ [mean] ++ h.means.drop n }

/-- Makes the samples that end with the current block the context of the next one. -/
def carryOver (blockSize : Nat) : ChannelHistory :=
  { h with context := (h.samples.drop blockSize).take h.context.length }

/-- Gives back the low bits that were removed from the current block before compression. -/
def shiftBlock (blockSize bitshift : Nat) : ChannelHistory :=
  if bitshift = 0 then h
  else h.withBlock ((h.current blockSize).map fun x ↦ Sample.shiftLeft x bitshift)

end ChannelHistory

end LosslessAudio
