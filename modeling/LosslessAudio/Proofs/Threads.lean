import LosslessAudio.Proofs.Deliveries
import LosslessAudio.Transcoding.Threads

/-!
# The schedule does not matter

A worker that is heard sends what `Delivery.ofSource` says, one move after the other
(`Worker.goes_opening`).  Whatever the schedule, the events that were handled, the messages in the
channel and those still to come are these messages (`Threads.OnCourse`), so that the main thread
returns what `Transcoding.recordDelivery` says (`Threads.Settled`).

`Threads.Course` puts the two together, with a bound on the moves that are left: no schedule gets
stuck before the main thread returns (`Course.exists_step`), and none goes on for ever
(`Course.run`).
-/

set_option autoImplicit false

namespace LosslessAudio

open Delivery (Progress listener)

/-! ## What a worker sends -/

/-- The message that there will be no more events. -/
def Delivery.Ending.messages : Delivery.Ending → List Message
  | .failed e => [.error e]
  | _ => []

/-- The messages that a delivery comes to. -/
def Delivery.messages (delivery : Delivery) : List Message :=
  delivery.events.map .ok ++ delivery.ending.messages

/-- What some events do not account for of the messages is the rest of the events, and the end. -/
theorem Delivery.exists_of_messages {delivery : Delivery} {events : List Event}
    {rest : List Message} (h : events.map .ok ++ rest = delivery.messages) :
    ∃ more, delivery.events = events ++ more ∧
      rest = more.map .ok ++ delivery.ending.messages := by
  obtain ⟨all, ending⟩ := delivery
  dsimp only [messages] at h ⊢
  induction events generalizing all with
  | nil => exact ⟨all, rfl, h⟩
  | cons event events ih =>
    rcases all with _ | ⟨first, all⟩
    · rcases ending with _ | _ | _ <;> simp [Ending.messages] at h
    · simp only [List.map_cons, List.cons_append, List.cons.injEq, Except.ok.injEq] at h
      obtain ⟨rfl, h⟩ := h
      obtain ⟨more, rfl, hrest⟩ := ih _ h
      exact ⟨more, rfl, hrest⟩

/-- A worker at its end. -/
def Delivery.Ending.worker : Delivery.Ending → Worker
  | .lost breakdown => .lost breakdown
  | _ => .ended

theorem Delivery.Ending.eq_complete {ending : Ending} (h : ending.worker = .ended)
    (hmessages : ending.messages = []) : ending = .complete := by
  rcases ending with _ | e | _
  · rfl
  · simp [messages] at hmessages
  · simp [worker] at h

theorem Delivery.Ending.eq_lost {ending : Ending} {breakdown : Breakdown}
    (h : ending.worker = .lost breakdown) : ending = .lost breakdown := by
  rcases ending with _ | e | _
  · simp [worker] at h
  · simp [worker] at h
  · rw [worker, Worker.lost.injEq] at h
    rw [h]

/-- What a worker has sent between two moments. -/
structure Delivery.Progress.Sends (p p' : Progress) (events : List Event) : Prop where
  sent : p'.sent.reverse = p.sent.reverse ++ events

namespace Delivery.Progress

variable {p p' p'' : Progress} {events events' : List Event}

theorem Sends.refl (p : Progress) : p.Sends p [] :=
  ⟨(List.append_nil _).symm⟩

theorem Sends.trans (h : p.Sends p' events) (h' : p'.Sends p'' events') :
    p.Sends p'' (events ++ events') :=
  ⟨by rw [h'.sent, h.sent, List.append_assoc]⟩

end Delivery.Progress

namespace Delivery

/-- Whoever is heard goes on behind the parameters, -/
theorem sendInfo_heard (p : Progress) (d : Decoder) :
    ∃ p' events, sendInfo true p d = (p', true) ∧ p.Sends p' events ∧
      (p.news p').toList = events.map .ok := by
  have hnothing : (p.news p).toList = [].map .ok := by simp [Progress.news]
  rcases hinfo : d.info? with _ | info
  · exact ⟨p, [], by simp [sendInfo, hinfo], .refl p, hnothing⟩
  · by_cases hsent : p.infoSent
    · exact ⟨p, [], by simp [sendInfo, hinfo, hsent], .refl p, hnothing⟩
    · refine ⟨{ p with infoSent := true, sent := .info info :: p.sent }, [.info info],
        by simp [sendInfo, hinfo, hsent], ⟨by simp⟩, by simp [Progress.news]⟩

/-- and behind a frame. -/
theorem sendFrame_heard (p : Progress) (status : Status) :
    ∃ p' events, sendFrame true p status = (p', true) ∧ p.Sends p' events ∧
      (p.news p').toList = events.map .ok := by
  rcases status with _ | _ | frame | _
  case frame =>
    exact ⟨{ p with frames := p.frames + 1, sent := .frame frame :: p.sent }, [.frame frame], rfl,
      ⟨by simp⟩, by simp [Progress.news]⟩
  all_goals exact ⟨p, [], rfl, .refl p, by simp [Progress.news]⟩

end Delivery

/-- Nothing is kept up for nothing. -/
theorem Listener.upholds_true [Memory] {σ ε : Type} (listener : Listener σ ε) :
    listener.Upholds (fun _ _ _ => True) fun _ _ _ => True := by
  have heard (d : Decoder) (rest : Bytes) (result : σ × Except ε Bool) :
      Heard (fun _ _ _ => True) (fun _ _ _ => True) d rest result := by
    rcases result with ⟨state, e | _ | _⟩ <;> trivial
  exact ⟨fun _ _ _ _ => trivial, fun _ _ _ _ => heard _ _ _, fun _ _ => heard _ _ _⟩

theorem Decoder.going_of_feed [Memory] {σ ε : Type} {d : Decoder} {chunk rest : Bytes}
    (hd : d.Going (chunk ++ rest)) (listener : Listener σ ε) (state : σ) :
    let fed := (d.feed listener state chunk).value
    fed.outcome = .ok true → fed.decoder.Going rest :=
  (listener.upholds_true.feed trivial hd).2

namespace Worker

variable {opened : Except FileFault Reader} {size n n' : Nat} {w w' w'' : Worker}
    {messages messages' : List Message}

/-- While it is heard, `n` moves take a worker from one state to another, and `messages` are what it
sends on the way. -/
inductive Goes [Memory] (opened : Except FileFault Reader) (size : Nat) :
    Nat → Worker → List Message → Worker → Prop
  | refl (w : Worker) : Goes opened size 0 w [] w
  | step {n : Nat} {w w' w'' : Worker} {sent : Option Message} {messages : List Message}
      (h : w.step opened none size true = some (w', sent))
      (hrest : Goes opened size n w' messages w'') :
      Goes opened size (n + 1) w (sent.toList ++ messages) w''

theorem Goes.trans [Memory] (h : Goes opened size n w messages w')
    (h' : Goes opened size n' w' messages' w'') :
    Goes opened size (n + n') w (messages ++ messages') w'' := by
  induction h with
  | refl => simpa using h'
  | step h _ ih =>
    rw [Nat.add_right_comm, List.append_assoc]
    exact .step h (ih h')

theorem goes_one [Memory] {sent : Option Message}
    (h : w.step opened none size true = some (w', sent)) :
    Goes opened size 1 w sent.toList w' := by
  simpa using Goes.step h (.refl w')

theorem goes_silent [Memory] (h : w.step opened none size true = some (w', none)) :
    Goes opened size 1 w [] w' :=
  goes_one h

/-- A worker sends events on its way from one state of its progress to another. -/
def GoesOn [Memory] (opened : Except FileFault Reader) (size : Nat) (w : Worker) (p : Progress)
    (w' : Worker) (p' : Progress) : Prop :=
  ∃ n events, Goes opened size n w (events.map .ok) w' ∧ p.Sends p' events

theorem GoesOn.trans [Memory] {p p' p'' : Progress} (h : GoesOn opened size w p w' p')
    (h' : GoesOn opened size w' p' w'' p'') : GoesOn opened size w p w'' p'' := by
  obtain ⟨n, events, hgoes, hsends⟩ := h
  obtain ⟨n', events', hgoes', hsends'⟩ := h'
  refine ⟨n + n', events ++ events', ?_, hsends.trans hsends'⟩
  rw [List.map_append]
  exact hgoes.trans hgoes'

/-- A move on which nothing is sent. -/
theorem goesOn_silent [Memory] (h : w.step opened none size true = some (w', none)) (p : Progress) :
    GoesOn opened size w p w' p :=
  ⟨1, [], goes_silent h, .refl p⟩

variable (opened size)

/-- A status is reported, and what there is to send is sent. -/
theorem goesOn_informing [Memory] (input : Option (Reader × Bytes)) (d : Decoder) (p : Progress)
    (status : Status) : ∃ p', (listener true).onStatus p d status = (p', .ok true) ∧
      GoesOn opened size (.informing input d p status) p (next input d p' status) p' := by
  obtain ⟨p₁, events₁, hinfo, hsends₁, hnews₁⟩ := Delivery.sendInfo_heard p d
  obtain ⟨p₂, events₂, hframe, hsends₂, hnews₂⟩ := Delivery.sendFrame_heard p₁ status
  have hinforms : GoesOn opened size (.informing input d p status) p
      (.framing input d p₁ status) p₁ :=
    ⟨1, events₁, hnews₁ ▸ goes_one (by simp [step, hinfo]), hsends₁⟩
  have hframes : GoesOn opened size (.framing input d p₁ status) p₁
      (next input d p₂ status) p₂ :=
    ⟨1, events₂, hnews₂ ▸ goes_one (by simp [step, hframe]), hsends₂⟩
  exact ⟨p₂, by simp [listener, hinfo, hframe], hinforms.trans hframes⟩

/-- So is the status of a call that is answered. -/
theorem goesOn_calling [Memory] (input : Option (Reader × Bytes)) {d d' : Decoder} {p p' : Progress}
    {out : Output} {result : Except Failure Bool}
    (hcall : (d.decode (input.map (·.2))).value = (d', .ok out))
    (hheard : (listener true).onStatus p d' out.status = (p', result)) : result = .ok true ∧
      GoesOn opened size (.calling input d p) p
        (next (input.map fun (reader, chunk) => (reader, chunk.drop out.consumed)) d' p'
          out.status) p' := by
  obtain ⟨p'', hheard', hgoes⟩ := goesOn_informing opened size
    (input.map fun (reader, chunk) => (reader, chunk.drop out.consumed)) d' p out.status
  obtain ⟨rfl, rfl⟩ := Prod.mk.inj (hheard.symm.trans hheard')
  exact ⟨rfl, .trans (goesOn_silent (by simp [step, hcall]) p) hgoes⟩

/-- The worker behind a loop over calls. -/
def behind (reader? : Option Reader) (fed : Decoder.Fed Progress Failure) : Worker :=
  match fed.outcome, reader? with
  | .error e, _ => .failing e
  | .ok false, _ => .ended
  | .ok true, some reader => .reading reader fed.decoder fed.state
  | .ok true, none => .calling none fed.decoder fed.state

/-- The worker makes the calls of a loop one after the other. -/
theorem goesOn_loops [Memory] (input : Option (Reader × Bytes)) {d : Decoder} {p : Progress}
    {offered : Option Bytes} {before : List Made} {last : Made}
    {fed : Decoder.Fed Progress Failure} (hinput : input.map (·.2) = offered)
    (h : Decoder.Loops (listener true) d p offered before last fed) :
    GoesOn opened size (.calling input d p) p (behind (input.map (·.1)) fed) fed.state := by
  induction h generalizing input with
  | failed hcall =>
    subst hinput
    exact goesOn_silent (by simp [step, hcall, behind, listener]) _
  | brokenOff hcall hheard =>
    subst hinput
    simpa using (goesOn_calling opened size input hcall hheard).1
  | stopped hcall hheard hstop =>
    subst hinput
    obtain ⟨hgoOn, hgoes⟩ := goesOn_calling opened size input hcall hheard
    have hfinished := hstop.resolve_left (by simp [Except.ok.inj hgoOn])
    simpa [next, hfinished, behind] using hgoes
  | taken hcall hheard hwaits hall =>
    obtain ⟨⟨reader, chunk⟩, rfl, rfl⟩ := Option.map_eq_some_iff.1 hinput
    have hgoes := (goesOn_calling opened size (some (reader, chunk)) hcall hheard).2
    simpa [next, hwaits, hall, behind] using hgoes
  | @again d d' _ p' offered out before last fed hcall hheard hfinished hnext hrest ih =>
    subst hinput
    have hgoes := (goesOn_calling opened size input hcall hheard).2
    rcases input with _ | ⟨reader, chunk⟩
    · simp only [next, hfinished, if_false, Option.map_none] at hgoes
      exact hgoes.trans (ih _ rfl)
    · have hmore : ¬(out.status = .needMoreInput ∧ chunk.drop out.consumed = []) := by
        rintro ⟨hwaits, hall⟩
        exact hnext hwaits (by simp [hall])
      simp only [next, hfinished, if_false, Option.map_some, hmore] at hgoes
      exact hgoes.trans (ih _ rfl)

theorem step_reading [Memory] (heard : Bool) (reader : Reader) (d : Decoder) (p : Progress) :
    step opened none size heard (.reading reader d p) =
      match reader.read (max 1 size) with
      | .error fault => some (.failing (.file fault), none)
      | .ok ([], _) => some (.calling none d p, none)
      | .ok (b :: chunk, reader) => some (.calling (some (reader, b :: chunk)) d p, none) := rfl

/-- The worker behind the chunks of a source. -/
def behindChunks (handed : Reader.Handed (Intake Progress) Failure) : Worker :=
  match handed.outcome with
  | .error e => .failing e
  | .ok () =>
    if handed.state.stopped then .ended
    else .calling none handed.state.decoder handed.state.state

/-- The worker takes the chunks of a source one after the other. -/
theorem goesOn_handOut [Memory] (r : Reader) (intake : Intake Progress)
    (hd : intake.decoder.Going r.rest) (hstopped : intake.stopped = false) :
    let handed := (r.handOut (Intake.consumer (listener true)) (max 1 size) intake).value
    GoesOn opened size (.reading r intake.decoder intake.state) intake.state (behindChunks handed)
        handed.state.state ∧
      (handed.outcome = .ok () → handed.state.stopped = false →
        handed.state.decoder.Going []) := by
  induction r using Reader.read_induction (n := max 1 size) generalizing intake with
  | broken r fault hread =>
    rw [Reader.handOut_of_error hread]
    exact ⟨goesOn_silent (by simp [step_reading, hread, behindChunks, Intake.consumer]) _,
      by simp⟩
  | exhausted r r' hread =>
    rw [Reader.rest_of_read (Nat.le_max_left 1 size) hread] at hd
    rw [Reader.handOut_of_nil hread]
    exact ⟨goesOn_silent (by simp [step_reading, hread, behindChunks, hstopped]) _, fun _ _ => hd⟩
  | chunk r r' chunk hread hne ih =>
    obtain ⟨b, bytes, rfl⟩ := List.exists_cons_of_ne_nil hne
    rw [← Reader.read_spec hread] at hd
    obtain ⟨before, last, hloops⟩ :=
      Decoder.exists_loops_feed hd.poised (listener true) intake.state
    have hreads : GoesOn opened size (.reading r intake.decoder intake.state) intake.state
        (.calling (some (r', b :: bytes)) intake.decoder intake.state) intake.state :=
      goesOn_silent (by simp [step_reading, hread]) _
    have hcalls := goesOn_loops opened size (some (r', b :: bytes)) rfl hloops
    have hgoing := Decoder.going_of_feed hd (listener true) intake.state
    rw [Reader.handOut_of_chunk hread hne]
    simp only [Logged.value_bind, Intake.consumer, Intake.value_feed]
    generalize (intake.decoder.feed (listener true) intake.state (b :: bytes)).value = fed at *
    obtain ⟨decoder, p, e | goOn⟩ := fed
    · exact ⟨hreads.trans hcalls, by simp⟩
    · rcases goOn with _ | _
      · exact ⟨hreads.trans hcalls, by simp⟩
      · obtain ⟨hgoes, hgoing'⟩ := ih ⟨decoder, p, _, false⟩ (hgoing rfl) rfl
        exact ⟨(hreads.trans hcalls).trans hgoes, hgoing'⟩

/-- The worker behind all of a source. -/
def behindSource : Except Failure Unit → Worker
  | .error e => .failing e
  | .ok () => .ended

/-- The worker takes in a source, if it has a buffer for the chunks. -/
theorem goesOn_takeIn [Memory] (r : Reader) (d : Decoder) (p : Progress) (hd : d.Ready [r.rest])
    (hbuffer : Memory.allocate (max 1 size) = .ok ()) : ∃ intake outcome,
      (d.takeIn (listener true) size r p).value = .ok (intake, outcome) ∧
      GoesOn opened size (.reading r d p) p (behindSource outcome) intake.state := by
  obtain ⟨hgoes, hgoing⟩ := goesOn_handOut opened size r ⟨d, p, 0, false⟩ (.inl hd) rfl
  refine ⟨_, _, Decoder.value_takeIn hbuffer, ?_⟩
  generalize (r.handOut (Intake.consumer (listener true)) (max 1 size) ⟨d, p, 0, false⟩).value =
    handed at *
  obtain ⟨reader, intake, e | _⟩ := handed
  · exact hgoes
  dsimp only [behindChunks] at hgoes ⊢
  rw [Intake.complete]
  rcases hstopped : intake.stopped with _ | _
  · have hpoised : intake.decoder.Poised none := (hgoing rfl hstopped).poised
    obtain ⟨before, last, hloops⟩ :=
      Decoder.exists_loops_drain hpoised (listener true) intake.state
    have hdrains := goesOn_loops opened size none rfl hloops
    simp only [hstopped, Bool.false_eq_true, if_false, Logged.value_bind, Logged.value_pure]
      at hgoes ⊢
    generalize (intake.decoder.drain (listener true) intake.state).value = fed at *
    obtain ⟨decoder, p', e | goOn⟩ := fed
    · exact hgoes.trans hdrains
    · rcases goOn with _ | _
      · exact hgoes.trans hdrains
      · exact absurd rfl (hloops.outcome_ne_ok_true hpoised)
  · simpa [hstopped, behindSource] using hgoes

/-- **A worker that is heard sends what it delivers**, and comes to its end. -/
theorem goes_opening [Memory] {d : Decoder} (hd : ∀ r, opened = .ok r → d.Ready [r.rest]) :
    let delivery := (Delivery.ofSource true opened size d).value
    ∃ n, Goes opened size n (.opening d) delivery.messages delivery.ending.worker := by
  have fails (e : Failure) : Goes opened size 1 (.failing e) [.error e] .ended := by
    have hsends : step opened none size true (.failing e) = some (.ended, some (.error e)) := rfl
    exact goes_one hsends
  rcases opened with fault | r
  · have hopens : Goes (.error fault) size 1 (.opening d) [] (.failing (.file fault)) :=
      goes_silent rfl
    exact ⟨2, hopens.trans (fails _)⟩
  rcases hbuffer : Memory.allocate (max 1 size) with breakdown | _
  · rw [Delivery.delivery_of_breakdown hbuffer]
    exact ⟨1, goes_silent (by simp [step, hbuffer, Delivery.Ending.worker])⟩
  have hopens : GoesOn (.ok r) size (.opening d) .start (.reading r d .start) .start :=
    goesOn_silent (by simp [step, hbuffer]) _
  obtain ⟨intake, outcome, htaken, hgoes⟩ :=
    goesOn_takeIn (.ok r) size r d .start (hd r rfl) hbuffer
  obtain ⟨n, events, hgoes, hsends⟩ := hopens.trans hgoes
  have hsent : intake.state.sent.reverse = events := hsends.sent
  rw [Delivery.ofSource, Logged.value_bind, htaken]
  rcases outcome with e | _
  · refine ⟨n + 1, ?_⟩
    simpa [hsent, Delivery.messages, Delivery.Ending.messages, Delivery.Ending.worker] using
      hgoes.trans (fails e)
  · refine ⟨n, ?_⟩
    simpa [hsent, Delivery.messages, Delivery.Ending.messages, Delivery.Ending.worker,
      behindSource] using hgoes

variable {opened size}

/-- A worker at its end does not move any more. -/
@[simp] theorem step_ending [Memory] (overwritten : Option Bytes) (ending : Delivery.Ending)
    (heard : Bool) : step opened overwritten size heard ending.worker = none := by
  rcases ending with _ | _ | _ <;> rfl

/-- A worker on its way is at the end, or moves. -/
theorem Goes.eq_or_step [Memory] {n : Nat} (h : Goes opened size n w messages w') :
    (n = 0 ∧ messages = [] ∧ w = w') ∨ ∃ m w₁ sent messages', n = m + 1 ∧
      w.step opened none size true = some (w₁, sent) ∧ messages = sent.toList ++ messages' ∧
        Goes opened size m w₁ messages' w' := by
  rcases h with _ | ⟨h, hrest⟩
  · exact .inl ⟨rfl, rfl, rfl⟩
  · exact .inr ⟨_, _, _, _, rfl, h, rfl, hrest⟩

/-- A worker that has sent why there is no more is at its end. -/
theorem ended_of_error [Memory] {overwritten : Option Bytes} {heard : Bool} {e : Failure}
    (h : w.step opened overwritten size heard = some (w', some (.error e))) : w' = .ended := by
  have hnews (p p' : Progress) : p.news p' ≠ some (.error e) := by
    simp only [Progress.news]
    split <;> simp
  rcases w with d | ⟨reader, d, p⟩ | ⟨input, d, p⟩ | ⟨input, d, p, status⟩ | ⟨input, d, p, status⟩ |
    _ | _ | _
  case opening =>
    simp only [step] at h
    split at h
    · simp at h
    · split at h <;> simp at h
  case reading =>
    simp only [step] at h
    split at h <;> simp at h
  case calling =>
    simp only [step] at h
    split at h <;> simp at h
  case informing | framing => simp [step, hnews] at h
  case failing => exact (by simpa [step] using h : Worker.ended = w' ∧ _).1.symm
  case ended | lost => simp [step] at h

end Worker

/-! ## What the main thread records -/

namespace Transcoding

variable {creationFault? : Path → Option FileFault}

theorem record_append (r : Recorder) (events events' : List Event) :
    (record creationFault? r (events ++ events')).value =
      match (record creationFault? r events).value with
      | (r, .error e) => (r, .error e)
      | (r, .ok ()) => (record creationFault? r events').value := by
  induction events generalizing r with
  | nil => rfl
  | cons event events ih =>
    simp only [List.cons_append, record, Logged.value_bind]
    rcases (r.handle creationFault? event).value with ⟨r', e | _⟩
    · rfl
    · exact ih r'

/-- The end of a delivery, all of which could be recorded. -/
theorem value_recordDelivery {r r' : Recorder} {delivery : Delivery}
    (h : (record creationFault? r delivery.events).value = (r', .ok ())) :
    (recordDelivery creationFault? r delivery).value =
      match delivery.ending with
      | .failed e => .ok (r', .error e)
      | .complete => .ok r'.finish.value
      | .lost .panic => .ok (r'.finish.value.1, r'.finish.value.2.bind fun _ => .error .workerLost)
      | .lost .abort => .error .abort := by
  simp only [recordDelivery, Logged.value_bind, h]
  rcases delivery.ending with _ | _ | _ | _
  · rfl
  · rfl
  · rw [Logged.value_bind]
    rcases r'.finish.value with ⟨r'', e | _⟩ <;> rfl
  · rfl

/-- A delivery that could not be recorded. -/
theorem value_recordDelivery_of_error {r r' : Recorder} {delivery : Delivery} {e : Failure}
    (h : (record creationFault? r delivery.events).value = (r', .error e)) :
    (recordDelivery creationFault? r delivery).value = .ok (r', .error e) := by
  simp only [recordDelivery, Logged.value_bind, h]
  rfl

end Transcoding

/-- Where the audio file of a format is created. -/
def AudioFormat.pathAt (format : AudioFormat) (target : Path) : Path :=
  target.withSuffix format.name.toUTF8.toList

theorem Recorder.path_of_createAudio {r : Recorder} {creationFault? : Path → Option FileFault}
    {target path : Path} {info : StreamInfo} {fresh : AudioFile}
    (h : r.createAudio creationFault? target info = .ok (path, fresh)) :
    path = r.format.pathAt target := by
  obtain ⟨_, -, h⟩ := bind_eq_ok.1 h
  rw [AudioFile.createAt] at h
  split at h
  · cases h
  · rcases hcreated : AudioFile.create r.format (UInt32.ofNat info.sampleRate)
      (UInt16.ofNat info.channels) with fault | file
    all_goals
      rw [hcreated] at h
      cases h
    rfl

/-- A recorder writes, and will write, to no other place than some paths. -/
structure Recorder.Within (r : Recorder) (paths : List Path) : Prop where
  place : ∀ target, r.target = some target → r.format.pathAt target ∈ paths
  audio : ∀ path file, r.audio = some (path, file) → path ∈ paths

namespace Recorder.Within

variable {r : Recorder} {paths : List Path}

theorem mono {paths' : List Path} (h : r.Within paths) (hsubset : paths ⊆ paths') :
    r.Within paths' :=
  ⟨fun target htarget => hsubset (h.place target htarget),
    fun path file haudio => hsubset (h.audio path file haudio)⟩

theorem begin (h : r.Within paths) (creationFault? : Path → Option FileFault)
    (info : StreamInfo) : (r.begin creationFault? info).value.1.Within paths := by
  obtain ⟨target, format, audio, info', frames, samples⟩ := r
  rw [Recorder.begin, Logged.value_bind]
  rcases target with _ | target
  · exact ⟨nofun, h.audio⟩
  · dsimp only
    split
    · exact h
    · rename_i path fresh hcreated
      refine ⟨h.place, fun path' file' hsome => ?_⟩
      cases hsome
      exact path_of_createAudio hcreated ▸ h.place target rfl

theorem add (h : r.Within paths) (frame : Frame) : (r.add frame).1.Within paths := by
  rw [Recorder.add]
  split
  · exact h
  · refine ⟨h.place, fun path file hsome => ?_⟩
    obtain ⟨⟨path', file'⟩, haudio, heq⟩ := Option.map_eq_some_iff.1 hsome
    cases heq
    exact h.audio path file' haudio

theorem handle (h : r.Within paths) (creationFault? : Path → Option FileFault) (event : Event) :
    (r.handle creationFault? event).value.1.Within paths := by
  cases event with
  | info info => exact h.begin creationFault? info
  | frame frame => exact h.add frame

theorem record (h : r.Within paths) (creationFault? : Path → Option FileFault)
    (events : List Event) : (Transcoding.record creationFault? r events).value.1.Within paths := by
  induction events generalizing r with
  | nil => exact h
  | cons event events ih =>
    have hhandled := h.handle creationFault? event
    rw [Transcoding.record, Logged.value_bind]
    generalize (r.handle creationFault? event).value = handled at *
    rcases handled with ⟨r', e | _⟩
    · exact hhandled
    · exact ih hhandled

end Recorder.Within

namespace Transcoding

variable (t : Transcoding)

/-- Where a transcoding puts its audio file. -/
def places : List Path :=
  (t.output.map t.format.pathAt).toList

/-- The recorder of a transcoding writes where the transcoding puts its audio file. -/
theorem within_start : (Recorder.start t.output t.format).Within t.places := by
  refine ⟨fun target htarget => ?_, nofun⟩
  have hplace : t.output = some target := htarget
  simp [places, hplace, Recorder.start]

/-- The audio file does not take the place of the file that is read. -/
def Apart (surroundings : Surroundings) : Prop :=
  ∀ path ∈ t.places, surroundings.overwrites path t.input = false

end Transcoding

namespace Threads

variable (t : Transcoding) (surroundings : Surroundings)

/-- What the worker of a transcoding delivers to who listens to the end. -/
def delivery [Memory] : Delivery :=
  (Delivery.ofSource true (surroundings.openInput t.input) t.chunkSize
    (.ofLevel (Transcoding.failLevelOf t.strict))).value

/-- What recording some events comes to. -/
def recorded (events : List Event) : Recorder × Except Failure Unit :=
  (Transcoding.record surroundings.creationFault? (.start t.output t.format) events).value

/-- The main thread still receives: it has recorded what it has handled, and what it has handled,
what is under way and what the worker will send in the `n` moves that are left are the messages of
the delivery. -/
structure OnCourse [Memory] (s : Threads) (n : Nat) (r : Recorder) : Prop where
  main : s.main = .receiving r
  records : recorded t surroundings s.handled = (r, .ok ())
  sends : ∃ future, Worker.Goes (surroundings.openInput t.input) t.chunkSize n s.worker future
    (delivery t surroundings).ending.worker ∧
      s.handled.map .ok ++ (s.channel ++ future) = (delivery t surroundings).messages
  failed : ∀ {e : Failure}, .error e ∈ s.channel → s.worker = .ended

/-- The main thread has returned what recording the delivery comes to. -/
structure Settled [Memory] (s : Threads) : Prop where
  main : ∃ r result, s.main = .returned r result ∧
    (Transcoding.recordDelivery surroundings.creationFault? (.start t.output t.format)
      (delivery t surroundings)).value = .ok (r, result)
  handled : s.handled <+: (delivery t surroundings).events
  /-- If nothing stood against recording, all was handled, and the worker is at its end. -/
  complete : (recorded t surroundings (delivery t surroundings).events).2 = .ok () →
    s.handled = (delivery t surroundings).events ∧
      ∃ ending : Delivery.Ending, s.worker = ending.worker

variable {t surroundings} {s s' : Threads} {n : Nat} {r : Recorder}

/-- What the main thread returns when the channel is closed. -/
theorem hangUp_eq (r : Recorder) (result : Except Failure Unit) :
    hangUp r result = .returned r.finish.value.1 (r.finish.value.2.bind fun _ => result) := by
  rw [hangUp]
  rcases r.finish.value with ⟨r', e | _⟩ <;> rfl

/-- The audio file is another one than the one that is read. -/
theorem OnCourse.overwritten_eq [Memory] (h : OnCourse t surroundings s n r)
    (hapart : t.Apart surroundings) : s.overwritten t surroundings = none := by
  have hwithin : (recorded t surroundings s.handled).1.Within t.places :=
    t.within_start.record surroundings.creationFault? s.handled
  rw [h.records] at hwithin
  rw [overwritten, h.main, MainThread.written]
  rcases haudio : r.audio with _ | ⟨path, file⟩
  · rfl
  · simp [hapart path (hwithin.audio path file haudio)]

theorem OnCourse.work [Memory] (h : OnCourse t surroundings s n r) (hapart : t.Apart surroundings)
    (hstep : s.work? t surroundings = some s') :
    ∃ m, n = m + 1 ∧ OnCourse t surroundings s' m r ∧
      s'.channel.length ≤ s.channel.length + 1 := by
  obtain ⟨future, hgoes, hmessages⟩ := h.sends
  rcases hgoes.eq_or_step with ⟨-, -, hend⟩ | ⟨m, w, sent, messages', rfl, hmove, rfl, hrest⟩
  · simp [work?, hend] at hstep
  · simp only [work?, h.overwritten_eq hapart, h.main, MainThread.isReceiving, hmove,
      Option.some.injEq] at hstep
    subst hstep
    refine ⟨m, rfl, ⟨rfl, h.records, ⟨messages', hrest, by simpa using hmessages⟩, ?_⟩, ?_⟩
    · intro e he
      rcases List.mem_append.1 he with he | he
      · simp [h.failed he, Worker.step] at hmove
      · rw [Option.mem_toList] at he
        rw [he] at hmove
        exact Worker.ended_of_error hmove
    · rcases sent with _ | message <;> simp

/-- The event that arrives next is the next one of the delivery. -/
theorem OnCourse.exists_next [Memory] (h : OnCourse t surroundings s n r) {event : Event}
    {channel : List Message} (hchannel : s.channel = .ok event :: channel) :
    ∃ more, (delivery t surroundings).events = s.handled ++ event :: more := by
  obtain ⟨future, -, hmessages⟩ := h.sends
  obtain ⟨more, hevents, hmore⟩ := Delivery.exists_of_messages hmessages
  rw [hchannel] at hmore
  rcases more with _ | ⟨first, more⟩
  · rcases hending : (delivery t surroundings).ending with _ | _ | _
    all_goals simp [hending, Delivery.Ending.messages] at hmore
  · simp only [List.cons_append, List.map_cons, List.cons.injEq, Except.ok.injEq] at hmore
    exact ⟨more, hmore.1 ▸ hevents⟩

/-- The channel is closed when all was handled. -/
theorem settled_hangUp [Memory] {result : Except Failure Unit} {channel : List Message}
    (hhandled : s.handled = (delivery t surroundings).events)
    (ending : Delivery.Ending) (hworker : s.worker = ending.worker)
    (hvalue : (Transcoding.recordDelivery surroundings.creationFault? (.start t.output t.format)
      (delivery t surroundings)).value =
        .ok (r.finish.value.1, r.finish.value.2.bind fun _ => result)) :
    Settled t surroundings { s with channel, main := hangUp r result } where
  main := ⟨_, _, hangUp_eq r result, hvalue⟩
  handled := hhandled ▸ List.prefix_refl _
  complete _ := ⟨hhandled, ending, hworker⟩

/-- A main thread that finds the channel closed has handled all that is delivered. -/
theorem OnCourse.receive_closed [Memory] (h : OnCourse t surroundings s n r)
    (hchannel : s.channel = [])
    (hstep : s.receive? surroundings = some s') : Settled t surroundings s' := by
  obtain ⟨future, hgoes, hmessages⟩ := h.sends
  obtain ⟨more, hevents, hmore⟩ := Delivery.exists_of_messages hmessages
  have hclosed (ending : Delivery.Ending) (hworker : s.worker = ending.worker) :
      s.worker = (delivery t surroundings).ending.worker ∧
        s.handled = (delivery t surroundings).events ∧
          (delivery t surroundings).ending.messages = [] := by
    rcases hgoes.eq_or_step with ⟨-, rfl, hlast⟩ | ⟨_, _, _, _, -, hmove, -⟩
    · rw [hchannel, List.nil_append, eq_comm, List.append_eq_nil_iff,
        List.map_eq_nil_iff] at hmore
      rw [hmore.1, List.append_nil] at hevents
      exact ⟨hlast, hevents.symm, hmore.2⟩
    · simp [hworker] at hmove
  simp only [receive?, h.main, hchannel] at hstep
  split at hstep
  · rename_i hworker
    obtain ⟨hlast, hhandled, hnone⟩ := hclosed .complete hworker
    have hending := Delivery.Ending.eq_complete (hlast.symm.trans hworker) hnone
    obtain rfl := Option.some.inj hstep
    refine settled_hangUp hhandled .complete hworker ?_
    rw [Transcoding.value_recordDelivery (hhandled ▸ h.records), hending]
    rcases r.finish.value with ⟨r', e | _⟩ <;> rfl
  · rename_i hworker
    obtain ⟨hlast, hhandled, -⟩ := hclosed (.lost .panic) hworker
    have hending := Delivery.Ending.eq_lost (hlast.symm.trans hworker)
    obtain rfl := Option.some.inj hstep
    refine settled_hangUp hhandled (.lost .panic) hworker ?_
    rw [Transcoding.value_recordDelivery (hhandled ▸ h.records), hending]
  · simp at hstep

/-- A failure is the last that arrives. -/
theorem OnCourse.receive_error [Memory] (h : OnCourse t surroundings s n r) {e : Failure}
    {channel : List Message} (hchannel : s.channel = .error e :: channel)
    (hstep : s.receive? surroundings = some s') : Settled t surroundings s' := by
  obtain ⟨future, -, hmessages⟩ := h.sends
  obtain ⟨more, hevents, hmore⟩ := Delivery.exists_of_messages hmessages
  simp only [receive?, h.main, hchannel, Option.some.injEq] at hstep
  subst hstep
  rw [hchannel] at hmore
  obtain rfl : more = [] := by
    rcases more with _ | ⟨event, more⟩
    · rfl
    · simp at hmore
  rw [List.append_nil] at hevents
  have hending : (delivery t surroundings).ending = .failed e := by
    rcases hending : (delivery t surroundings).ending with _ | _ | _
    all_goals simp [hending, Delivery.Ending.messages] at hmore
    rw [hmore.1]
  refine ⟨⟨r, .error e, rfl, ?_⟩, hevents ▸ List.prefix_refl _, fun _ => ⟨hevents.symm, ?_⟩⟩
  · have hrecorded := h.records
    rw [← hevents] at hrecorded
    rw [Transcoding.value_recordDelivery hrecorded, hending]
  · exact ⟨.complete, h.failed (hchannel ▸ List.mem_cons_self)⟩

/-- An event is recorded next, or settles what is returned if it cannot be. -/
theorem OnCourse.receive_event [Memory] (h : OnCourse t surroundings s n r) {event : Event}
    {channel : List Message} (hchannel : s.channel = .ok event :: channel)
    (hstep : s.receive? surroundings = some s') :
    (∃ r', OnCourse t surroundings s' n r' ∧ s'.channel.length < s.channel.length) ∨
      Settled t surroundings s' := by
  obtain ⟨future, hgoes, hmessages⟩ := h.sends
  obtain ⟨more, hevents⟩ := h.exists_next hchannel
  have hrecorded : recorded t surroundings (s.handled ++ [event]) =
      (r.handle surroundings.creationFault? event).value := by
    have := h.records
    rw [recorded] at this
    rw [recorded, Transcoding.record_append, this]
    simp only [Transcoding.record, Logged.value_bind]
    rcases (r.handle surroundings.creationFault? event).value with ⟨r', e | _⟩ <;> rfl
  simp only [receive?, h.main, hchannel] at hstep
  rcases hhandle : (r.handle surroundings.creationFault? event).value with ⟨r', e | _⟩
  · simp only [hhandle, Option.some.injEq] at hstep
    subst hstep
    have hfails : recorded t surroundings (delivery t surroundings).events = (r', .error e) := by
      rw [hevents, List.append_cons, recorded, Transcoding.record_append]
      rw [recorded, hhandle] at hrecorded
      rw [hrecorded]
    refine .inr ⟨⟨r', .error e, rfl, ?_⟩, ⟨_, hevents.symm⟩, fun hok => ?_⟩
    · exact Transcoding.value_recordDelivery_of_error hfails
    · simp [hfails] at hok
  · simp only [hhandle, Option.some.injEq] at hstep
    subst hstep
    refine .inl ⟨r', ⟨rfl, hrecorded.trans hhandle, ⟨future, hgoes, ?_⟩, fun he => ?_⟩, ?_⟩
    · simpa [hchannel] using hmessages
    · exact h.failed (hchannel ▸ List.mem_cons_of_mem _ he)
    · simp [hchannel]

theorem OnCourse.receive [Memory] (h : OnCourse t surroundings s n r)
    (hstep : s.receive? surroundings = some s') :
    (∃ r', OnCourse t surroundings s' n r' ∧ s'.channel.length < s.channel.length) ∨
      Settled t surroundings s' := by
  rcases hchannel : s.channel with _ | ⟨e | event, channel⟩
  · exact .inr (h.receive_closed hchannel hstep)
  · exact .inr (h.receive_error hchannel hstep)
  · exact hchannel ▸ h.receive_event hchannel hstep

/-- A move of one of the threads. -/
theorem step?_eq [Memory] (hworker : s.worker ≠ .lost .abort) (thread : Thread) :
    s.step? t surroundings thread =
      match thread with
      | .worker => s.work? t surroundings
      | .main => s.receive? surroundings :=
  if_neg hworker

theorem worker_ne_of_step [Memory] {thread : Thread}
    (hstep : s.step? t surroundings thread = some s') : s.worker ≠ .lost .abort := by
  intro hworker
  simp [step?, hworker] at hstep

/-- No thread waits for ever: as long as the main thread receives, one of the two moves, unless the
program comes to a sudden end. -/
theorem OnCourse.exists_step [Memory] (h : OnCourse t surroundings s n r)
    (hapart : t.Apart surroundings) (hending : (delivery t surroundings).ending ≠ .lost .abort) :
    ∃ thread s', s.step? t surroundings thread = some s' := by
  have hworker : s.worker ≠ .lost .abort := by
    intro hworker
    obtain ⟨future, hgoes, -⟩ := h.sends
    rcases hgoes.eq_or_step with ⟨-, -, hlast⟩ | ⟨m, w, sent, -, -, hmove, -⟩
    · exact hending (Delivery.Ending.eq_lost (hlast.symm.trans hworker))
    · simp [hworker, Worker.step] at hmove
  obtain ⟨future, hgoes, hmessages⟩ := h.sends
  simp only [step?_eq hworker]
  rcases hchannel : s.channel with _ | ⟨e | event, channel⟩
  · rcases hgoes.eq_or_step with ⟨-, -, hlast⟩ | ⟨m, w, sent, -, -, hmove, -⟩
    · refine ⟨.main, ?_⟩
      rcases hcases : (delivery t surroundings).ending with _ | _ | _ | _
      case lost.abort => exact absurd hcases hending
      all_goals simp [receive?, h.main, hchannel, hlast, hcases, Delivery.Ending.worker]
    · exact ⟨.worker, by simp [work?, h.overwritten_eq hapart, h.main, MainThread.isReceiving,
        hmove]⟩
  · exact ⟨.main, by simp [receive?, h.main, hchannel]⟩
  · refine ⟨.main, ?_⟩
    rcases hhandle : (r.handle surroundings.creationFault? event).value with ⟨r', e | _⟩
    all_goals simp [receive?, h.main, hchannel, hhandle]

/-- What is settled stays settled. -/
theorem Settled.step [Memory] (h : Settled t surroundings s) {thread : Thread}
    (hstep : s.step? t surroundings thread = some s') : Settled t surroundings s' ∧
      (recorded t surroundings (delivery t surroundings).events).2 ≠ .ok () := by
  obtain ⟨r, result, hmain, hvalue⟩ := h.main
  rw [step?_eq (worker_ne_of_step hstep)] at hstep
  rcases thread with _ | _
  · simp only [work?] at hstep
    split at hstep
    · simp at hstep
    · rename_i worker sent hmove
      -- a worker at its end would not have moved
      have hfails : (recorded t surroundings (delivery t surroundings).events).2 ≠ .ok () := by
        intro hok
        obtain ⟨-, ending, hworker⟩ := h.complete hok
        simp [hworker] at hmove
      rw [Option.some.injEq] at hstep
      subst hstep
      exact ⟨⟨⟨r, result, hmain, hvalue⟩, h.handled, fun hok => absurd hok hfails⟩, hfails⟩
  · simp [receive?, hmain] at hstep

/-! ## Whatever the schedule -/

/-- The threads are on course or settled, and `k` moves are left at most. -/
inductive Course [Memory] (t : Transcoding) (surroundings : Surroundings) (s : Threads) : Nat → Prop
  | onCourse {n : Nat} {r : Recorder} (h : OnCourse t surroundings s n r) :
      Course t surroundings s (2 * n + s.channel.length + 1)
  | settled (h : Settled t surroundings s) : Course t surroundings s 0

variable {k : Nat}

/-- The threads start on course. -/
theorem exists_course [Memory] (t : Transcoding) (surroundings : Surroundings)
    (hheld : ∀ reader, surroundings.openInput t.input = .ok reader →
      PendingInput.CanHold reader.rest.length) :
    ∃ k, Course t surroundings (start t) k := by
  have hready (reader : Reader) (hopen : surroundings.openInput t.input = .ok reader) :
      (Decoder.ofLevel (Transcoding.failLevelOf t.strict)).Ready [reader.rest] :=
    Decoder.ready_start _ _ (by simpa using hheld reader hopen)
  obtain ⟨n, hgoes⟩ := Worker.goes_opening (surroundings.openInput t.input) t.chunkSize hready
  exact ⟨_, .onCourse (n := n) (r := .start t.output t.format)
    ⟨rfl, rfl, ⟨_, hgoes, by simp [start, delivery]⟩, by simp [start]⟩⟩

/-- A move leaves them on course or settled.  It counts, unless something stands against recording:
then a worker that is not heard may go on for a while. -/
theorem Course.step [Memory] (h : Course t surroundings s k) (hapart : t.Apart surroundings)
    {thread : Thread} (hstep : s.step? t surroundings thread = some s') :
    ∃ k', Course t surroundings s' k' ∧
      ((recorded t surroundings (delivery t surroundings).events).2 = .ok () → k' < k) := by
  rcases h with h | h
  · rw [step?_eq (worker_ne_of_step hstep)] at hstep
    rcases thread with _ | _
    · obtain ⟨m, rfl, h', hchannel⟩ := h.work hapart hstep
      exact ⟨_, .onCourse h', fun _ => by omega⟩
    · rcases h.receive hstep with ⟨r', h', hchannel⟩ | h'
      · exact ⟨_, .onCourse h', fun _ => by omega⟩
      · exact ⟨0, .settled h', fun _ => Nat.succ_pos _⟩
  · obtain ⟨h', hfails⟩ := h.step hstep
    exact ⟨0, .settled h', fun hok => absurd hok hfails⟩

/-- So does every schedule. -/
theorem Course.run [Memory] (h : Course t surroundings s k) (hapart : t.Apart surroundings)
    {schedule : List Thread} (hrun : s.run? t surroundings schedule = some s') :
    ∃ k', Course t surroundings s' k' ∧
      ((recorded t surroundings (delivery t surroundings).events).2 = .ok () →
        k' + schedule.length ≤ k) := by
  induction schedule generalizing s k with
  | nil =>
    obtain rfl := Option.some.inj hrun
    exact ⟨k, h, fun _ => Nat.le_refl _⟩
  | cons thread schedule ih =>
    rw [run?] at hrun
    rcases hstep : s.step? t surroundings thread with _ | s₁
    · simp [hstep] at hrun
    · rw [hstep] at hrun
      obtain ⟨k₁, h₁, hlt⟩ := h.step hapart hstep
      obtain ⟨k', h', hle⟩ := ih h₁ hrun
      refine ⟨k', h', fun hok => ?_⟩
      have := hlt hok
      have := hle hok
      rw [List.length_cons]
      omega

theorem Course.exists_step [Memory] (h : Course t surroundings s k) (hapart : t.Apart surroundings)
    (hending : (delivery t surroundings).ending ≠ .lost .abort) (hmain : s.main.isReceiving) :
    ∃ thread s', s.step? t surroundings thread = some s' := by
  rcases h with h | h
  · exact h.exists_step hapart hending
  · obtain ⟨r, result, hreturned, -⟩ := h.main
    simp [hreturned, MainThread.isReceiving] at hmain

theorem Course.onCourse_of_receiving [Memory] (h : Course t surroundings s k)
    (hmain : s.main = .receiving r) : ∃ n, OnCourse t surroundings s n r := by
  rcases h with h | h
  · obtain rfl := MainThread.receiving.inj (h.main.symm.trans hmain)
    exact ⟨_, h⟩
  · obtain ⟨r', result, hreturned, -⟩ := h.main
    simp [hreturned] at hmain

/-- What was handled is the front of what is delivered. -/
theorem Course.handled_prefix [Memory] (h : Course t surroundings s k) :
    s.handled <+: (delivery t surroundings).events := by
  rcases h with h | h
  · obtain ⟨future, -, hmessages⟩ := h.sends
    obtain ⟨more, hevents, -⟩ := Delivery.exists_of_messages hmessages
    exact ⟨more, hevents.symm⟩
  · exact h.handled

/-- What the main thread returns is what recording the delivery comes to. -/
theorem Course.returned [Memory] (h : Course t surroundings s k) {r : Recorder}
    {result : Except Failure Unit} (hmain : s.main = .returned r result) :
    (Transcoding.recordDelivery surroundings.creationFault? (.start t.output t.format)
      (delivery t surroundings)).value = .ok (r, result) ∧
    ((recorded t surroundings (delivery t surroundings).events).2 = .ok () →
      s.handled = (delivery t surroundings).events) := by
  rcases h with h | h
  · simp [h.main] at hmain
  · obtain ⟨r', result', hreturned, hvalue⟩ := h.main
    rw [hmain, MainThread.returned.injEq] at hreturned
    obtain ⟨rfl, rfl⟩ := hreturned
    exact ⟨hvalue, fun hok => (h.complete hok).1⟩

end Threads

end LosslessAudio
