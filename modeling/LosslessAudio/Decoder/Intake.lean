import LosslessAudio.Decoder.Feed
import LosslessAudio.Failure
import LosslessAudio.File.Source

/-!
# Decoding a source

`Decoder.takeIn` reads a source to its end, or until the stream has ended or the listener stops, and
feeds every chunk to a decoder; a stream that has not ended by then is drained.
-/

set_option autoImplicit false

namespace LosslessAudio

variable {σ : Type}

/-- How far a source has been decoded. -/
structure Intake (σ : Type) where
  decoder : Decoder
  /-- The listener's state. -/
  state : σ
  /-- How many bytes were handed to the decoder. -/
  bytes : Nat
  /-- Whether no more chunks are wanted. -/
  stopped : Bool

namespace Intake

/-- Feeds one more chunk. -/
def feed [Memory] (listener : Listener σ Failure) (intake : Intake σ) (chunk : Bytes) :
    Logged (Intake σ × Except Failure Bool) := do
  let fed ← intake.decoder.feed listener intake.state chunk
  let stopped :=
    match fed.outcome with
    | .ok goOn => !goOn
    | .error _ => intake.stopped
  return (⟨fed.decoder, fed.state, intake.bytes + chunk.length, stopped⟩, fed.outcome)

/-- The decoder as a consumer of chunks. -/
def consumer [Memory] (listener : Listener σ Failure) : Consumer (Intake σ) Failure where
  onChunk := feed listener
  ofFault := .file

/-- Drains the decoder unless the stream has ended or the listener has stopped. -/
def complete [Memory] (listener : Listener σ Failure) (intake : Intake σ) :
    Logged (Intake σ × Except Failure Unit) := do
  if intake.stopped then return (intake, .ok ())
  let fed ← intake.decoder.drain listener intake.state
  return ({ intake with decoder := fed.decoder, state := fed.state }, fed.outcome.map fun _ ↦ ())

end Intake

/-- Decodes what a reader gives, in chunks of at most `size` bytes. -/
def Decoder.takeIn [Memory] (listener : Listener σ Failure) (size : Nat) (reader : Reader)
    (d : Decoder) (state : σ) : Logged (Except Breakdown (Intake σ × Except Failure Unit)) := do
  match ← reader.forEachChunk (Intake.consumer listener) size ⟨d, state, 0, false⟩ with
  | .error breakdown => return .error breakdown
  | .ok handed =>
    match handed.outcome with
    | .error e => return .ok (handed.state, .error e)
    | .ok () => return .ok (← handed.state.complete listener)

end LosslessAudio
