import LosslessAudio.PendingInput
import LosslessAudio.Stream.Body

/-!
# The decoder

A decoder is fed a stream in pieces of any size, and gives back at most one frame per call.
`Decoder.decode` takes what fits of the offered bytes and, once enough is pending, runs a pass: over
the header first, over commands from then on.  `none` in place of bytes says that the input is
complete.

A decoder that has failed refuses every call until it is reset, and one whose stream has ended
ignores all further input.
-/

set_option autoImplicit false

namespace LosslessAudio

/-- Whether a decoder still decodes. -/
inductive Condition where
  | active
  | finished
  | failed
  deriving DecidableEq, Repr

/-- An incremental decoder. -/
structure Decoder where
  /-- The frame size that a reset goes back to. -/
  initialFrameSize : Nat
  /-- Findings at least as severe as this are failures. -/
  failLevel : Level
  input : PendingInput
  /-- The state of the stream, once its header is read. -/
  stream : Option Stream
  condition : Condition
  deriving DecidableEq, Repr

/-- What a call reports. -/
inductive Status where
  /-- The input was taken, or has to be offered again; nothing could be decoded yet. -/
  | needMoreInput
  /-- A pass ran and did not complete a round. -/
  | noFrame
  /-- One block of every channel was decoded. -/
  | frame (frame : Frame)
  /-- The stream has ended. -/
  | finished
  deriving DecidableEq, Repr

/-- The answer of a call: how many of the offered bytes were taken, and what came of it. -/
structure Output where
  consumed : Nat
  status : Status
  deriving DecidableEq, Repr

namespace Decoder

/-- A decoder before its first input. -/
def start (frameSize : Nat) (failLevel : Level) : Decoder :=
  { initialFrameSize := frameSize
    failLevel
    input := .empty frameSize
    stream := none
    condition := .active }

/-- A decoder with the usual frame size. -/
def ofLevel (failLevel : Level) : Decoder :=
  start PendingInput.defaultFrameSize failLevel

variable (d : Decoder)

/-- The decoder as it was before its first input. -/
def reset : Decoder :=
  start d.initialFrameSize d.failLevel

/-- The parameters of the stream, once its header is read. -/
def info? : Option StreamInfo :=
  d.stream.map (·.info)

/-- Whether the stream has ended. -/
def isFinished : Bool :=
  d.condition = .finished

/-- Gives up.  Where the bits ran out, the input was cut short. -/
def giveUp (fault : Fault) : Decoder × Except Fault Status :=
  let fault := if fault.isOverread then .storage (.truncated d.input.length) else fault
  ({ d with input := d.input.clear, condition := .failed }, .error fault)

/-- Reads the header; where it is not complete yet, nothing changes. -/
def readHeader [Memory] (flush : Bool) (r : BitReader) :
    Logged (Option Stream × Except Fault (Stream.PassEnd × BitReader)) := do
  match ← (StreamInfo.read d.failLevel r).run with
  | .error fault =>
    if fault.isOverread && !flush then return (none, .ok (.suspended, r))
    else return (none, .error fault)
  | .ok (info, r) =>
    match Stream.start info with
    | .error fault => return (none, .error fault)
    | .ok s => return (some s, .ok (.paused, r))

/-- What a pass that ended in some way reports. -/
def statusOf : Stream.PassEnd → Status
  | .suspended => .needMoreInput
  | .paused | .quit => .noFrame
  | .frame frame => .frame frame

/-- Drops the input that a pass has used up, and reports how the pass ended. -/
def settle (ending : Stream.PassEnd) (r : BitReader) : Logged (Decoder × Except Fault Status) := do
  match d.input.consume r.position with
  | (.error fault, input) => return giveUp { d with input } fault
  | (.ok dropped, input) =>
    Logged.note .trace .pendingInput
      s!"consumed {dropped} bytes, {input.length} pending, resume at bit {input.bitOffset}"
    if ending = .suspended then
      let input := input.grow
      Logged.note .trace .pendingInput s!"working frame size now {input.frameSize}"
      return ({ d with input }, .ok (statusOf ending))
    else
      let condition := if ending = .quit then .finished else d.condition
      return ({ d with input, condition }, .ok (statusOf ending))

/-- Runs one pass over the pending input. -/
def runPass [Memory] (flush : Bool) : Logged (Decoder × Except Fault Status) := do
  match d.input.reader with
  | .error e => return d.giveUp (.read e)
  | .ok r =>
    let (stream, outcome) ←
      match d.stream with
      | none => d.readHeader flush r
      | some s => do
        let pass ← s.runCommands d.failLevel flush r
        pure (some pass.stream, pass.outcome)
    let d := { d with stream }
    match outcome with
    | .error fault => return d.giveUp fault
    | .ok (ending, r) => d.settle ending r

/-- Decodes the next piece of the stream; `none` says that the input is complete. -/
def decode [Memory] (offered : Option Bytes) : Logged (Decoder × Except Fault Output) := do
  let bytes := offered.getD []
  match d.condition with
  | .failed => return (d, .error .failedBefore)
  | .finished => return (d, .ok ⟨bytes.length, .finished⟩)
  | .active =>
    match d.input.append bytes with
    | .error fault =>
      let (d, status) := d.giveUp fault
      return (d, status.map (⟨0, ·⟩))
    | .ok (consumed, input) =>
      let d := { d with input }
      if input.isReady offered.isNone then
        let (d, status) ← d.runPass offered.isNone
        return (d, status.map (⟨consumed, ·⟩))
      else return (d, .ok ⟨consumed, .needMoreInput⟩)

end Decoder

end LosslessAudio
