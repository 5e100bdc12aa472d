import LosslessAudio.Fault

/-!
# Memory

A program asks the machine that it runs on for memory, and may be refused.  `Memory` is what the
machine grants; everything that asks depends on it, and what is shown holds of every machine.

There are two ways to ask.  `Memory.reserve` is for storage whose size the input decides: a refusal
is a fault like any other.  `Memory.allocate` is for buffers that a program cannot do without: if it
is refused, the program breaks down.
-/

set_option autoImplicit false

namespace LosslessAudio

/-- What storage is reserved for. -/
inductive Purpose where
  /-- Bytes that have arrived and are not used up. -/
  | input
  /-- The samples of a channel. -/
  | samples
  /-- The means of a channel. -/
  | means
  /-- The samples of a frame. -/
  | frame
  deriving DecidableEq, Repr

/-- The name of a purpose in messages. -/
def Purpose.name : Purpose → String
  | .input => "bitstream buffer"
  | .samples => "decoded samples"
  | .means => "mean history"
  | .frame => "output frame"

/-- How a program breaks down. -/
inductive Breakdown where
  /-- The thread ends, and whoever waits for it learns that it did. -/
  | panic
  /-- The whole program ends on the spot. -/
  | abort
  deriving DecidableEq, Repr

/-- What a machine grants. -/
class Memory where
  /-- Whether room for so many elements is granted. -/
  grants : Purpose → Nat → Bool
  /-- Whether a buffer of so many bytes is granted. -/
  grantsBuffer : Nat → Bool
  /-- Room for the largest frame, 8 blocks of 65535 samples of 16 bits each and so less than a
  megabyte, is always granted. -/
  grants_frame : ∀ n ≤ 8 * 65535, grants .frame n = true

namespace Memory

/-- A machine that is never short of memory. -/
scoped instance ample : Memory :=
  ⟨fun _ _ ↦ true, fun _ ↦ true, fun _ _ ↦ rfl⟩

/-- Larger buffers are not even asked for. -/
def bufferLimit : Nat := 1 <<< 63 - 1

variable [Memory]

/-- Reserves room for some elements. -/
def reserve (purpose : Purpose) (elements : Nat) : Except Fault Unit :=
  if grants purpose elements then .ok ()
  else .error (.storage (.allocation purpose.name elements))

/-- Allocates a buffer of some bytes. -/
def allocate (bytes : Nat) : Except Breakdown Unit :=
  if bufferLimit < bytes then .error .panic
  else if grantsBuffer bytes then .ok ()
  else .error .abort

end Memory

end LosslessAudio
