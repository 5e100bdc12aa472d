import LosslessAudio.Decoder.Intake

/-!
# Delivering a decoded stream

A worker decodes a source and delivers what it finds as events, in the order of the stream: its
parameters, once, and then its frames.  It stops early if nobody listens any more.
-/

set_option autoImplicit false

namespace LosslessAudio

/-- What a worker delivers. -/
inductive Event where
  | info (info : StreamInfo)
  | frame (frame : Frame)
  deriving DecidableEq, Repr

/-- How the work ended. -/
inductive Delivery.Ending where
  | complete
  | failed (failure : Failure)
  /-- The worker broke down before it read anything. -/
  | lost (breakdown : Breakdown)
  deriving DecidableEq, Repr

/-- What was delivered, and how the work ended. -/
structure Delivery where
  events : List Event
  ending : Delivery.Ending
  deriving DecidableEq, Repr

namespace Delivery

/-- What a worker remembers. -/
structure Progress where
  infoSent : Bool
  frames : Nat
  /-- The events so far, the latest first. -/
  sent : List Event
  deriving DecidableEq, Repr

/-- Nothing delivered yet. -/
def Progress.start : Progress :=
  ⟨false, 0, []⟩

/-- The parameters are delivered with the first status that comes when they are known. -/
def sendInfo (heard : Bool) (p : Progress) (d : Decoder) : Progress × Bool :=
  match d.info? with
  | none => (p, true)
  | some info =>
    if p.infoSent then (p, true)
    else if heard then ({ p with infoSent := true, sent := .info info :: p.sent }, true)
    else ({ p with infoSent := true }, false)

/-- Every frame is delivered. -/
def sendFrame (heard : Bool) (p : Progress) : Status → Progress × Bool
  | .frame frame =>
    let p := { p with frames := p.frames + 1 }
    if heard then ({ p with sent := .frame frame :: p.sent }, true) else (p, false)
  | _ => (p, true)

/-- The worker as a listener of its decoder; `heard` says whether anybody takes the events. -/
def listener (heard : Bool) : Listener Progress Failure where
  onStatus p d status :=
    match sendInfo heard p d with
    | (p, false) => (p, .ok false)
    | (p, true) =>
      let (p, goOn) := sendFrame heard p status
      (p, .ok goOn)
  ofFault := .stream

/-- Decodes a source in chunks of at most `size` bytes and delivers what is found; `opened` is what
came of opening the source. -/
def ofSource [Memory] (heard : Bool) (opened : Except FileFault Reader) (size : Nat) (d : Decoder) :
    Logged Delivery := do
  match opened with
  | .error fault => return ⟨[], .failed (.file fault)⟩
  | .ok reader =>
    match ← d.takeIn (listener heard) size reader .start with
    | .error breakdown => return ⟨[], .lost breakdown⟩
    | .ok (intake, .error e) => return ⟨intake.state.sent.reverse, .failed e⟩
    | .ok (intake, .ok ()) =>
      Logged.note .info .worker
        s!"Processing complete: {intake.state.frames} frames from {intake.bytes} bytes"
      return ⟨intake.state.sent.reverse, .complete⟩

end Delivery

end LosslessAudio
