import LosslessAudio.Text.Decimal

/-!
# Durations

A duration is a number of seconds.  As text it is cut down to whole milliseconds and written as
hours, minutes, seconds and milliseconds; a negative one, or one that is not a number, is written as
zero.
-/

set_option autoImplicit false

namespace LosslessAudio.Duration

/-- The duration of a number of samples of each channel; zero if there is no sample rate. -/
def seconds (samples sampleRate : Nat) : Float :=
  if sampleRate = 0 then 0
  else (UInt64.ofNat samples).toFloat / (UInt64.ofNat sampleRate).toFloat

/-- How many times `unit` goes into what is left of a value by `whole`. -/
def part (value : Float) (whole unit : Nat) : Nat :=
  match Magnitude.ofFloat? value with
  | none => 0
  | some m => (m.remainder whole / Float.ofNat unit).toUInt64.toNat

/-- A duration as text. -/
def text (seconds : Float) : String :=
  let milliseconds := seconds * 1000
  let hours := (milliseconds / 3600000).toUInt64.toNat
  let hours := Text.padded 2 hours
  let minutes := Text.padded 2 (part milliseconds 3600000 60000)
  let wholeSeconds := Text.padded 2 (part milliseconds 60000 1000)
  let thousandths := Text.padded 3 (part milliseconds 1000 1)
  s!"{hours}:{minutes}:{wholeSeconds}.{thousandths}"

end LosslessAudio.Duration
