import LosslessAudio.Channel

/-!
# Frames

A frame is one block of every channel, its samples brought into the 16-bit range and interleaved:
first the first sample of every channel, then the second of every channel, and so on.
-/

set_option autoImplicit false

namespace LosslessAudio

/-- One block of interleaved samples. -/
structure Frame where
  channels : Nat
  /-- How many samples each channel has. -/
  blockSize : Nat
  samples : List Int16
  deriving DecidableEq, Repr

namespace Frame

/-- The nearest 16-bit sample. -/
def clip (x : Int32) : Int16 :=
  if x < -32768 then -32768
  else if 32767 < x then 32767
  else x.toInt16

/-- The current blocks of all channels as one frame. -/
def ofBlocks (channels : List ChannelHistory) (blockSize : Nat) : Frame :=
  let blocks := channels.map fun h ↦ (h.current blockSize).toArray
  { channels := channels.length
    blockSize
    samples := (List.range blockSize).flatMap fun i ↦ blocks.map fun b ↦ clip (b.getD i 0) }

/-- Reserves room for a frame, and fills it with the current blocks of all channels. -/
def interleave [Memory] (channels : List ChannelHistory) (blockSize : Nat) :
    Except Fault Frame := do
  Memory.reserve .frame (channels.length * blockSize)
  return ofBlocks channels blockSize

/-- The samples of channel `c`, found at every place congruent to `c`. -/
def channel (frame : Frame) (c : Nat) : List Int16 :=
  let samples := frame.samples.toArray
  let stride := max 1 frame.channels
  (List.range ((samples.size - c + stride - 1) / stride)).map fun i ↦
    samples.getD (c + i * stride) 0

end Frame

end LosslessAudio
