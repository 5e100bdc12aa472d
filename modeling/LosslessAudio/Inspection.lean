import LosslessAudio.Decoder.Intake
import LosslessAudio.Duration

/-!
# Inspection

An inspection reports on a stream: the parameters in its header and, if the whole stream is to be
looked at, how many blocks and samples it has.  A stream of which only the header is wanted is
decoded no further than that.
-/

set_option autoImplicit false

namespace LosslessAudio

/-- What the blocks of a stream amount to. -/
structure Totals where
  blocks : Nat
  /-- How many samples each channel has. -/
  samples : Nat
  deriving DecidableEq, Repr

/-- What is found out about a stream. -/
structure Report where
  info : StreamInfo
  inputBytes : Nat
  /-- Nothing if only the header was looked at. -/
  totals : Option Totals
  deriving DecidableEq, Repr

namespace Report

/-- A new block. -/
def count (totals : Totals) : Status → Totals
  | .frame frame => ⟨totals.blocks + 1, totals.samples + frame.blockSize⟩
  | _ => totals

/-- Counts blocks, or stops as soon as the header is known. -/
def listener (headerOnly : Bool) : Listener Totals Failure where
  onStatus totals d status :=
    if headerOnly && d.info?.isSome then (totals, .ok false) else (count totals status, .ok true)
  ofFault := .stream

/-- Inspects what a reader gives, in chunks of at most `size` bytes.  There is no report on a stream
without a header. -/
def ofReader [Memory] (headerOnly : Bool) (reader : Reader) (size : Nat) (failLevel : Level) :
    Logged (Except Breakdown (Except Failure (Option Report))) := do
  match ← (Decoder.ofLevel failLevel).takeIn (listener headerOnly) size reader ⟨0, 0⟩ with
  | .error breakdown => return .error breakdown
  | .ok (_, .error e) => return .ok (.error e)
  | .ok (intake, .ok ()) =>
    return .ok (.ok (intake.decoder.info?.map fun info ↦
      { info
        inputBytes := intake.bytes
        totals := if headerOnly then none else some intake.state }))

/-- How long the samples play, in seconds. -/
def seconds (report : Report) (totals : Totals) : Float :=
  Duration.seconds totals.samples report.info.sampleRate

/-- How long the samples play, as text. -/
def duration (report : Report) (totals : Totals) : String :=
  Duration.text (report.seconds totals)

end Report

end LosslessAudio
