import LosslessAudio.Fault
import LosslessAudio.File.Fault

/-!
# Why a task failed

A task fails because of its stream, because of a file, or for a reason of its own.
-/

set_option autoImplicit false

namespace LosslessAudio

/-- Why a task failed. -/
inductive Failure where
  | stream (fault : Fault)
  | file (fault : FileFault)
  /-- More channels than an audio file can have. -/
  | tooManyChannels
  /-- A frame of a stream whose parameters are not known. -/
  | frameBeforeInfo
  /-- The worker broke down. -/
  | workerLost
  deriving DecidableEq, Repr

/-- The wording of a failure. -/
def Failure.message : Failure → String
  | .stream fault => fault.message
  | .file fault => fault.message
  | .tooManyChannels => "number too large to fit in target type"
  | .frameBeforeInfo => "decoded frame arrived before stream parameters"
  | .workerLost => "Decode thread panicked"

/-- A fault of a file as a failure. -/
instance : MonadLift (Except FileFault) (Except Failure) where
  monadLift := Except.mapError .file

end LosslessAudio
