import LosslessAudio.Memory

/-!
# Pending input

Input arrives in pieces of any size, while parsing wants whole commands.  `PendingInput` holds the
bytes that have arrived and are not used up, together with the number of bits of the first of them
that are.

It takes bytes up to a *frame size* and is ready for a pass once it is full, or once there is no
more input.  A pass that runs out of bits within the header or a command doubles the frame size.
-/

set_option autoImplicit false

namespace LosslessAudio

/-- Bytes that have arrived and are not used up. -/
structure PendingInput where
  bytes : Bytes
  /-- How many bits of the first byte are used up. -/
  bitOffset : Nat
  /-- No more bytes than this are taken. -/
  frameSize : Nat
  deriving DecidableEq, Repr

namespace PendingInput

/-- The frame size where nothing else is asked for. -/
def defaultFrameSize : Nat := 1024

/-- A smaller frame size is brought up to this. -/
def minimalFrameSize : Nat := 16

/-- The frame size never grows beyond this. -/
def maxFrameSize : Nat := 1 <<< 64 - 1

/-- No input yet. -/
def empty (frameSize : Nat) : PendingInput :=
  ⟨[], 0, max minimalFrameSize frameSize⟩

variable (p : PendingInput)

/-- How many bytes are pending. -/
def length : Nat :=
  p.bytes.length

/-- How many more bytes are taken. -/
def room : Nat :=
  p.frameSize - p.length

/-- How many bytes of `offered` there is room for, and the input with these bytes. -/
def fill (offered : Bytes) : Nat × PendingInput :=
  let taken := offered.take p.room
  (taken.length, { p with bytes := p.bytes ++ taken })

/-- Takes as many bytes of `offered` as there is room for, if the buffer can be made to hold them;
the answer starts with their number. -/
def append [Memory] (offered : Bytes) : Except Fault (Nat × PendingInput) := do
  let (taken, filled) := p.fill offered
  if 0 < taken then Memory.reserve .input filled.length
  return (taken, filled)

/-- Whether a pass may run; `flush` says that the input is complete. -/
def isReady (flush : Bool) : Bool :=
  flush || decide (p.frameSize ≤ p.length)

/-- A reader of the pending bytes behind the bits that are used up. -/
def reader : Except ReadFault BitReader :=
  (BitReader.ofBytes p.bytes).skip p.bitOffset

/-- Drops everything that is pending. -/
def clear : PendingInput :=
  { p with bytes := [], bitOffset := 0 }

/-- Drops the bytes before bit `position`, and notes how many bits of the next one lie before it;
the answer starts with the number of dropped bytes.  If there are not that many bytes, all are
dropped and the answer starts with a fault. -/
def consume (position : Nat) : Except Fault Nat × PendingInput :=
  let dropped := position / 8
  if p.length < dropped then
    (.error (.storage (.overread (dropped - p.length))), p.clear)
  else
    (.ok dropped, { p with bytes := p.bytes.drop dropped, bitOffset := position % 8 })

/-- Doubles the frame size. -/
def grow : PendingInput :=
  { p with frameSize := min maxFrameSize (2 * p.frameSize) }

end PendingInput

end LosslessAudio
