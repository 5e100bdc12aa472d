import LosslessAudio.Transcoding

/-!
# The two threads of a transcoding

A worker decodes the source and sends what it finds over a channel that keeps the order; the main
thread receives it and records it.  `Threads.step?` is one move of either of them, so small that at
most one message is sent or received, and a schedule says whose turn it is.  Where the audio file is
the very file that is read, the worker finds in it what the main thread has written there so far.

If it is another one, `Transcoding.run` is what this comes to, whatever the schedule.
-/

set_option autoImplicit false

namespace LosslessAudio

open Delivery (Progress)

/-- What is sent over the channel: an event, or why there are no more. -/
abbrev Message := Except Failure Event

/-! ## The worker -/

/-- What a worker does next.  Where a decoder is to be called, `input` is the reader and what is
left of the last chunk; it is `none` when the source is read to its end. -/
inductive Worker where
  | opening (d : Decoder)
  | reading (reader : Reader) (d : Decoder) (p : Progress)
  | calling (input : Option (Reader × Bytes)) (d : Decoder) (p : Progress)
  /-- The decoder has answered, and the parameters may have to be sent. -/
  | informing (input : Option (Reader × Bytes)) (d : Decoder) (p : Progress) (status : Status)
  /-- Then there may be a frame to send. -/
  | framing (input : Option (Reader × Bytes)) (d : Decoder) (p : Progress) (status : Status)
  | failing (e : Failure)
  | ended
  /-- It has broken down. -/
  | lost (breakdown : Breakdown)
  deriving DecidableEq, Repr

/-- The event that was sent last, if one was sent since. -/
def Delivery.Progress.news (p p' : Progress) : Option Message :=
  if p.sent.length < p'.sent.length then p'.sent.head?.map .ok else none

namespace Worker

/-- What a worker does when a status is reported. -/
def next (input : Option (Reader × Bytes)) (d : Decoder) (p : Progress) (status : Status) :
    Worker :=
  if status = .finished then .ended
  else
    match input with
    | some (reader, chunk) =>
      if status = .needMoreInput ∧ chunk = [] then .reading reader d p
      else .calling (some (reader, chunk)) d p
    | none => .calling none d p

/-- One move of a worker, and what it sends.  `opened` is what comes of opening the source,
`overwritten` what the source holds if it was written over, and `heard` says whether anybody
receives what is sent. -/
def step [Memory] (opened : Except FileFault Reader) (overwritten : Option Bytes) (size : Nat)
    (heard : Bool) : Worker → Option (Worker × Option Message)
  | .opening d =>
    match opened with
    | .error fault => some (.failing (.file fault), none)
    | .ok reader =>
      match Memory.allocate (max 1 size) with
      | .error breakdown => some (.lost breakdown, none)
      | .ok () => some (.reading reader d .start, none)
  | .reading reader d p =>
    match { reader with contents := overwritten.getD reader.contents }.read (max 1 size) with
    | .error fault => some (.failing (.file fault), none)
    | .ok ([], _) => some (.calling none d p, none)
    | .ok (b :: chunk, reader) => some (.calling (some (reader, b :: chunk)) d p, none)
  | .calling input d p =>
    match (d.decode (input.map (·.2))).value with
    | (_, .error fault) => some (.failing (.stream fault), none)
    | (d, .ok out) =>
      let input := input.map fun (reader, chunk) ↦ (reader, chunk.drop out.consumed)
      some (.informing input d p out.status, none)
  | .informing input d p status =>
    let (p', goOn) := Delivery.sendInfo heard p d
    some (if goOn then .framing input d p' status else .ended, p.news p')
  | .framing input d p status =>
    let (p', goOn) := Delivery.sendFrame heard p status
    some (if goOn then next input d p' status else .ended, p.news p')
  | .failing e => some (.ended, if heard then some (.error e) else none)
  | .ended | .lost _ => none

end Worker

/-! ## Both threads -/

/-- What the main thread does. -/
inductive MainThread where
  | receiving (r : Recorder)
  | returned (r : Recorder) (result : Except Failure Unit)
  deriving Repr

namespace MainThread

/-- Whether the main thread still takes what is sent. -/
def isReceiving : MainThread → Bool
  | .receiving _ => true
  | .returned _ _ => false

/-- The path of the audio file and what has reached it, once it is created. -/
def written : MainThread → Option (Path × Bytes)
  | .receiving r => r.audio.map fun (path, audio) ↦ (path, audio.file.contents.toList)
  | .returned r _ => r.output

end MainThread

/-- One of the two threads. -/
inductive Thread where
  | worker
  | main
  deriving DecidableEq, Repr

/-- The two threads, and what lies between them. -/
structure Threads where
  worker : Worker
  /-- What was sent and not received yet, the oldest first. -/
  channel : List Message
  main : MainThread
  /-- The events that the main thread has handled. -/
  handled : List Event
  deriving Repr

namespace Threads

variable (t : Transcoding) (surroundings : Surroundings)

/-- A transcoding whose worker has not moved yet. -/
def start : Threads :=
  { worker := .opening (.ofLevel (Transcoding.failLevelOf t.strict))
    channel := []
    main := .receiving (.start t.output t.format)
    handled := [] }

/-- What the file that is read holds, if it is the one that the main thread writes. -/
def overwritten (s : Threads) : Option Bytes :=
  (s.main.written.filter fun audio ↦ surroundings.overwrites audio.1 t.input).map (·.2)

/-- The worker moves. -/
def work? [Memory] (s : Threads) : Option Threads :=
  match s.worker.step (surroundings.openInput t.input) (s.overwritten t surroundings) t.chunkSize
      s.main.isReceiving with
  | none => none
  | some (worker, sent) => some { s with worker, channel := s.channel ++ sent.toList }

/-- What the main thread returns when no message will come any more. -/
def hangUp (r : Recorder) (result : Except Failure Unit) : MainThread :=
  match r.finish.value with
  | (r, .error e) => .returned r (.error e)
  | (r, .ok ()) => .returned r result

/-- The main thread takes a message, or learns that there are no more. -/
def receive? (s : Threads) : Option Threads :=
  match s.main, s.channel with
  | .returned _ _, _ => none
  | .receiving r, .ok event :: channel =>
    match (r.handle surroundings.creationFault? event).value with
    | (r, .error e) => some { s with channel, main := .returned r (.error e) }
    | (r, .ok ()) =>
      some { s with channel, main := .receiving r, handled := s.handled ++ [event] }
  | .receiving r, .error e :: channel => some { s with channel, main := .returned r (.error e) }
  | .receiving r, [] =>
    match s.worker with
    | .ended => some { s with main := hangUp r (.ok ()) }
    | .lost .panic => some { s with main := hangUp r (.error .workerLost) }
    | _ => none

/-- A thread moves, unless it has to wait or has come to its end, or the program has. -/
def step? [Memory] (s : Threads) (thread : Thread) : Option Threads :=
  if s.worker = .lost .abort then none
  else
    match thread with
    | .worker => s.work? t surroundings
    | .main => s.receive? surroundings

/-- The threads move in turn, as the schedule says. -/
def run? [Memory] : Threads → List Thread → Option Threads
  | s, [] => some s
  | s, thread :: schedule =>
    match s.step? t surroundings thread with
    | none => none
    | some s => s.run? schedule

end Threads

end LosslessAudio
