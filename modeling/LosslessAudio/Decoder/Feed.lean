import LosslessAudio.Decoder

/-!
# Feeding a decoder

A caller hands a decoder whole pieces of input and wants to hear of everything that comes of them.
`Decoder.feed` offers one piece, over and over, until the decoder has taken all of it and asks for
more; `Decoder.drain` tells the decoder that the input is complete and goes on until the stream has
ended.  Both report every status to a listener, which may stop them.

Every call that is not the last of `feed` takes a byte, moves on by a bit, ends the stream, or makes
the frame larger than what is pending; `drain` moves on or ends.  The number of calls is therefore
bounded by the input, and the bounds below are generous.
-/

set_option autoImplicit false

namespace LosslessAudio

/-- Who is told of every status: `onStatus` is given the listener's own state and the decoder, and
answers with its new state and whether to go on, or with a failure.  `ofFault` is the failure that
stands for a failure of the decoder itself. -/
structure Listener (σ ε : Type) where
  onStatus : σ → Decoder → Status → σ × Except ε Bool
  ofFault : Fault → ε

namespace Decoder

variable {σ ε : Type}

/-- What feeding leads to: the decoder, the listener's state, and whether to go on. -/
structure Fed (σ ε : Type) where
  decoder : Decoder
  state : σ
  outcome : Except ε Bool

/-- A bound on the calls that feeding `chunk` takes. -/
def feedBound (d : Decoder) (chunk : Bytes) : Nat :=
  8 * (d.input.length + chunk.length) + 2 * chunk.length + 4

/-- Offers `chunk` until it is taken, in at most `calls` calls. -/
def feedWithin [Memory] (listener : Listener σ ε) :
    (calls : Nat) → (d : Decoder) → (state : σ) → (chunk : Bytes) → Logged (Fed σ ε)
  | 0, d, state, _ => return ⟨d, state, .ok true⟩
  | calls + 1, d, state, chunk => do
    match ← d.decode (some chunk) with
    | (d, .error fault) => return ⟨d, state, .error (listener.ofFault fault)⟩
    | (d, .ok output) =>
      let chunk := chunk.drop output.consumed
      match listener.onStatus state d output.status with
      | (state, .error e) => return ⟨d, state, .error e⟩
      | (state, .ok goOn) =>
        if !goOn || output.status = .finished then return ⟨d, state, .ok false⟩
        else if output.status = .needMoreInput ∧ chunk = [] then return ⟨d, state, .ok true⟩
        else feedWithin listener calls d state chunk

/-- Offers `chunk` until the decoder has taken all of it and asks for more.  The outcome says
whether to go on: not if the stream has ended or the listener stopped. -/
def feed [Memory] (listener : Listener σ ε) (d : Decoder) (state : σ) (chunk : Bytes) :
    Logged (Fed σ ε) :=
  feedWithin listener (d.feedBound chunk) d state chunk

/-- A bound on the calls that draining takes. -/
def drainBound (d : Decoder) : Nat :=
  8 * d.input.length + 4

/-- Flushes until the stream has ended, in at most `calls` calls. -/
def drainWithin [Memory] (listener : Listener σ ε) :
    (calls : Nat) → (d : Decoder) → (state : σ) → Logged (Fed σ ε)
  | 0, d, state => return ⟨d, state, .ok false⟩
  | calls + 1, d, state => do
    match ← d.decode none with
    | (d, .error fault) => return ⟨d, state, .error (listener.ofFault fault)⟩
    | (d, .ok output) =>
      match listener.onStatus state d output.status with
      | (state, .error e) => return ⟨d, state, .error e⟩
      | (state, .ok goOn) =>
        if !goOn || output.status = .finished then return ⟨d, state, .ok false⟩
        else drainWithin listener calls d state

/-- Flushes at the end of the input until the stream has ended or the listener stops. -/
def drain [Memory] (listener : Listener σ ε) (d : Decoder) (state : σ) : Logged (Fed σ ε) :=
  drainWithin listener d.drainBound d state

end Decoder

end LosslessAudio
