import LosslessAudio.Bits
import LosslessAudio.Log
import LosslessAudio.Text.Hex

/-!
# What can be wrong with a stream

Every way in which a stream can be refused is a constructor here, grouped by the part of the format
that is at fault.  `Fault.kind` sorts the causes into four broad classes, and `Fault.message` gives
each its wording.

`Checked` is the type of computations that may fail with such a cause and leave log records either
way.  A *finding* is a cause that only a strict reader treats as a failure: `report` fails on it if
it is severe enough, and otherwise leaves it in the log.
-/

set_option autoImplicit false

namespace LosslessAudio

/-- The broad class of a fault. -/
inductive FaultClass where
  /-- The bits are not a stream of this format. -/
  | invalidData
  /-- The stream uses a feature that is not handled. -/
  | unsupported
  /-- A parameter of the stream is out of the accepted range. -/
  | invalidArgument
  /-- Storage for the samples could not be reserved. -/
  | outOfMemory
  deriving DecidableEq, Repr

/-- Faults of the stream header. -/
inductive HeaderFault where
  | invalidMagic (found : Nat)
  | unexpectedVersion (version : UInt8)
  | noChannels
  | tooManyChannels (channels : Nat)
  | invalidBlockSize (blockSize : Nat)
  | tooManyMeans (count : Nat)
  | historyTooLarge (samples : Nat)
  | unknownSampleType (code : Nat)
  | missingVerbatimBlock
  | invalidVerbatimSize (size : Nat)
  deriving DecidableEq, Repr

/-- Faults of the WAVE header that the stream carries. -/
inductive WaveFault where
  | missingRiffTag
  | missingWaveTag
  | missingFormatChunk
  | formatChunkTooShort (length : Nat)
  | unsupportedFormat (tag : Nat)
  | unsupportedSampleWidth (bits : Nat)
  deriving DecidableEq, Repr

/-- Faults of a command in the body of the stream. -/
inductive CommandFault where
  | unknown (code : Nat)
  | blockSizeIncrease (current requested : Nat)
  | invalidBlockSize (blockSize : Nat)
  | invalidBitshift (bitshift : Nat)
  /-- A linear predictor that looks further back than samples are kept. -/
  | predictorOrder (order kept : Nat)
  deriving DecidableEq, Repr

/-- Faults of the storage between the input and the samples. -/
inductive StorageFault where
  /-- Room for that many elements could not be reserved. -/
  | allocation (purpose : String) (elements : Nat)
  /-- More bytes were read than were there. -/
  | overread (bytes : Nat)
  /-- The input ended inside the header or inside a command. -/
  | truncated (pending : Nat)
  deriving DecidableEq, Repr

/-- The cause for which a stream is refused. -/
inductive Fault where
  | read (fault : ReadFault)
  | header (fault : HeaderFault)
  | wave (fault : WaveFault)
  | command (fault : CommandFault)
  | storage (fault : StorageFault)
  /-- The stream ended without a quit command. -/
  | missingQuit (bitsLeft : Nat)
  /-- The decoder has failed before and was not reset. -/
  | failedBefore
  deriving DecidableEq, Repr

/-- The wording of a failed read. -/
def ReadFault.message : ReadFault → String
  | .pastEnd => "out of bounds bits"
  | .skipPastEnd => "skip_n: out of bounds bits"
  | .seekPastEnd position => s!"rewind_to({position}): out of bounds bits"
  | .tooWide => "excessive bits for type read"
  | .riceParameter parameter position =>
    s!"get_rice({parameter}): parameter out of range at {position}"

/-- The wording of a fault of the header. -/
def HeaderFault.message : HeaderFault → String
  | .invalidMagic found => s!"missing shorten magic 'ajkg', read {Text.hex 8 found}"
  | .unexpectedVersion version => s!"unexpected stream version {version.toNat}"
  | .noChannels => "no channels reported"
  | .tooManyChannels channels => s!"too many channels: {channels}"
  | .invalidBlockSize blockSize => s!"invalid or unsupported block size: {blockSize}"
  | .tooManyMeans count => s!"nmean too large: {count}"
  | .historyTooLarge samples => s!"channel history too large: {samples} samples"
  | .unknownSampleType code => s!"unknown audio type {code}"
  | .missingVerbatimBlock => "missing verbatim section at beginning of stream"
  | .invalidVerbatimSize size => s!"header is wrong size: {size}"

/-- The wording of a fault of the WAVE header. -/
def WaveFault.message : WaveFault → String
  | .missingRiffTag => "missing RIFF tag"
  | .missingWaveTag => "missing WAVE tag"
  | .missingFormatChunk => "missing fmt chunk"
  | .formatChunkTooShort length => s!"fmt chunk was too short: {length} bytes"
  | .unsupportedFormat tag => s!"unsupported wave format {Text.hex 4 tag}"
  | .unsupportedSampleWidth bits => s!"unsupported number of bits per sample: {bits}"

/-- The wording of a fault of a command. -/
def CommandFault.message : CommandFault → String
  | .unknown code => s!"unknown shorten function {code}"
  | .blockSizeIncrease current requested =>
    s!"increasing block size is not supported: {current} -> {requested}"
  | .invalidBlockSize blockSize => s!"invalid or unsupported block size: {blockSize}"
  | .invalidBitshift bitshift => s!"bitshift out of range: {bitshift}"
  | .predictorOrder order kept => s!"invalid pred_order {order}, nwrap is {kept}"

/-- The wording of a fault of the storage. -/
def StorageFault.message : StorageFault → String
  | .allocation purpose elements => s!"error allocating {purpose}: {elements} elements"
  | .overread bytes => s!"overread: {bytes} bytes"
  | .truncated pending => s!"stream truncated: read past the end of {pending} pending bytes"

namespace Fault

/-- The wording of a fault. -/
def message : Fault → String
  | .read fault => fault.message
  | .header fault => fault.message
  | .wave fault => fault.message
  | .command fault => fault.message
  | .storage fault => fault.message
  | .missingQuit bitsLeft => s!"stream ended without a quit command ({bitsLeft} bits left over)"
  | .failedBefore => "decoder is in a failed state, reset required"

/-- The class of a fault.  A read that ran out of bits, or asked for too wide a number, has none:
such a failure is not a property of the stream. -/
def kind : Fault → Option FaultClass
  | .read (.riceParameter _ _) => some .invalidData
  | .read _ => none
  | .header (.invalidBlockSize _) => some .invalidArgument
  | .header _ => some .invalidData
  | .wave (.unsupportedFormat _) => some .unsupported
  | .wave (.unsupportedSampleWidth _) => some .unsupported
  | .wave _ => some .invalidData
  | .command (.unknown _) => some .invalidData
  | .command (.blockSizeIncrease _ _) => some .unsupported
  | .command (.invalidBlockSize _) => some .invalidArgument
  | .command (.invalidBitshift _) => some .invalidData
  | .command (.predictorOrder _ _) => some .invalidArgument
  | .storage (.allocation _ _) => some .outOfMemory
  | .storage _ => some .invalidData
  | .missingQuit _ => some .invalidData
  | .failedBefore => some .invalidData

/-- Whether the bits ran out, so that more input may mend the failure. -/
def isOverread : Fault → Bool
  | .read fault => fault.isOverread
  | _ => false

end Fault

/-- A computation that may fail, and leaves log records whether it does or not. -/
abbrev Checked (α : Type) := ExceptT Fault Logged α

namespace Checked

variable {α : Type}

/-- The outcome without the log. -/
def outcome (x : Checked α) : Except Fault α :=
  x.run.value

/-- The log without the outcome. -/
def log (x : Checked α) : List Record :=
  x.run.log

/-- Leaves one record. -/
def note (level : Level) (origin : Origin) (message : String) : Checked Unit :=
  (Logged.note level origin message : Logged Unit)

/-- A finding of the given level: a failure if it is at least as severe as `failLevel`, else a log
record. -/
def report (failLevel level : Level) (origin : Origin) (fault : Fault) : Checked Unit :=
  if level ≤ failLevel then throw fault else note level origin fault.message

@[simp] theorem outcome_bind {β : Type} (x : Checked α) (f : α → Checked β) :
    (x >>= f).outcome = x.outcome >>= fun a ↦ (f a).outcome := by
  show (ExceptT.bindCont f x.run.value).value = _
  unfold outcome ExceptT.run
  cases (x : Logged (Except Fault α)).value <;> rfl

/-- A failure leaves no further records. -/
theorem log_bind {β : Type} (x : Checked α) (f : α → Checked β) :
    (x >>= f).log = x.log ++ match x.outcome with
      | .ok a => (f a).log
      | .error _ => [] := by
  show x.run.log ++ (ExceptT.bindCont f x.run.value).log = _
  unfold outcome ExceptT.run
  cases (x : Logged (Except Fault α)).value <;> rfl

@[simp] theorem outcome_pure (a : α) : (pure a : Checked α).outcome = .ok a := rfl

@[simp] theorem outcome_note (level : Level) (origin : Origin) (message : String) :
    (note level origin message).outcome = .ok () := rfl

end Checked

/-- A failed read is a fault of the computation that reads. -/
instance : MonadLift (Except ReadFault) (Except Fault) where
  monadLift := Except.mapError .read

/-- What leaves no records leaves an empty log. -/
instance : MonadLift (Except Fault) (ExceptT Fault Logged) where
  monadLift x := ExceptT.mk (pure x)

@[simp] theorem Checked.outcome_lift {α : Type} (x : Except Fault α) :
    Checked.outcome (liftM x) = x := rfl

@[simp] theorem Checked.outcome_lift_read {α : Type} (x : Except ReadFault α) :
    Checked.outcome (liftM x) = (liftM x : Except Fault α) := rfl

/-- A read that succeeds inside a larger computation succeeded by itself. -/
theorem lift_read_eq_ok {α : Type} {x : Except ReadFault α} {a : α} :
    (liftM x : Except Fault α) = .ok a ↔ x = .ok a := by
  cases x with
  | error e => constructor <;> intro h <;> cases h
  | ok b => constructor <;> intro h <;> cases h <;> rfl

/-- One that fails there failed by itself. -/
theorem lift_read_eq_error {α : Type} {x : Except ReadFault α} {fault : Fault} :
    (liftM x : Except Fault α) = .error fault ↔ ∃ e, x = .error e ∧ fault = .read e := by
  cases x with
  | error e =>
    constructor
    · intro h
      cases h
      exact ⟨e, rfl, rfl⟩
    · rintro ⟨e', he, rfl⟩
      cases he
      rfl
  | ok a =>
    constructor
    · intro h
      cases h
    · rintro ⟨e, he, -⟩
      cases he

end LosslessAudio
