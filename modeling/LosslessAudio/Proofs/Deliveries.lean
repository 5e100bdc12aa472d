import LosslessAudio.Proofs.Intakes
import LosslessAudio.Transcoding.Delivery

/-!
# What a worker delivers

As long as somebody listens, a worker delivers what lies in its source: first the parameters, if the
header can be read, and then the frames.  `delivery_of_reader` says so, for chunks of any size that
there is a buffer for.

`Source.Opens` says which readers a source may be read by, and `Playback.info?_of_transcript` ties
the parameters to the header.
-/

set_option autoImplicit false

namespace LosslessAudio

/-! ## The parameters of a stream -/

namespace Stream

/-- The parameters that a stream has at its end are those that it has now. -/
theorem info_playOut [Memory] (s : Stream) (failLevel : Level) (r : BitReader) :
    (s.playOut failLevel r).stream.map info = some s.info := by
  rcases h : s.next? r with _ | ⟨⟨e, s'⟩, r'⟩
  · rw [playOut_of_stuck h, ending]
    split <;> rfl
  · have := available_lt_of_next? h
    have hinfo := Routine.info_of_step (step_of_next? h)
    rw [playOut_of_next? h]
    split
    · simp [Transcript.ended, hinfo]
    · exact (info_playOut s' failLevel r').trans (congrArg some hinfo)
termination_by r.available

end Stream

namespace Transcript

/-- Behind a header that is accepted, the parameters are those of the header. -/
theorem info_ahead [Memory] {failLevel : Level} {bits : List Bool} {info : StreamInfo}
    {r : BitReader}
    {s : Stream} (hread : (StreamInfo.read failLevel ⟨0, bits⟩).outcome = .ok (info, r))
    (hstart : Stream.start info = .ok s) :
    (ahead failLevel none bits).stream.map Stream.info = some info := by
  rw [ahead, hread]
  dsimp only
  rw [hstart, show info = s.info by rw [Stream.eq_of_start hstart]]
  exact s.info_playOut failLevel _

/-- A stream that is not refused has a header that is accepted. -/
theorem accepted_of_ok [Memory] {failLevel : Level} {bits : List Bool}
    (h : (ahead failLevel none bits).outcome = .ok ()) :
    ∃ info r s, (StreamInfo.read failLevel ⟨0, bits⟩).outcome = .ok (info, r) ∧
      Stream.start info = .ok s := by
  rw [ahead] at h
  rcases hread : (StreamInfo.read failLevel ⟨0, bits⟩).outcome with fault | ⟨info, r⟩
  · simp [hread, unplaced_failed] at h
  rw [hread] at h
  rcases hstart : Stream.start info with fault | s
  · simp [hstart, unplaced_failed] at h
  · exact ⟨info, r, s, rfl, hstart⟩

end Transcript

theorem Playback.info?_of_transcript [Memory] {t : Playback} {failLevel : Level} {bits : List Bool}
    (ht : t.transcript = Transcript.ahead failLevel none bits) {info : StreamInfo} {r : BitReader}
    {s : Stream} (hread : (StreamInfo.read failLevel ⟨0, bits⟩).outcome = .ok (info, r))
    (hstart : Stream.start info = .ok s) : t.decoder.info? = some info := by
  rw [← Transcript.info_ahead hread hstart, ← ht]
  rfl

/-- There is no header in nothing. -/
theorem StreamInfo.not_read_nil (failLevel : Level) {info : StreamInfo} {r : BitReader} :
    (StreamInfo.read failLevel ⟨0, []⟩).outcome ≠ .ok (info, r) := by
  intro hread
  obtain ⟨n, hpos, hn, -⟩ := passes_of_read hread
  exact absurd hn (Nat.not_le.2 hpos)

/-! ## The readers of a source -/

namespace Source

/-- What a source holds, as far as it can be read. -/
def bytes : Source → Bytes
  | .file contents | .pipe contents => contents
  | .closed _ | .unreadable _ => []

/-- Why an open source cannot be read. -/
def fault? : Source → Option FileFault
  | .unreadable fault => some fault
  | .closed _ | .file _ | .pipe _ => none

/-- The source is opened by `r`, whose reads do not fail if the source can be read at all. -/
def Opens (source : Source) (r : Reader) : Prop :=
  ∃ replies, (∀ fault, Reply.fails fault ∉ replies) ∧ source.open replies = .ok r

variable {source : Source} {r : Reader}

/-- An open source has all its bytes, and the replies it was opened with, ahead of it. -/
theorem ahead_of_open {replies : List Reply} (hopen : source.open replies = .ok r) :
    r.rest = source.bytes ∧ r.fault? = source.fault? ∧ r.replies = replies := by
  cases source with
  | closed fault => simp [Source.open] at hopen
  | unreadable fault | file contents | pipe contents =>
    obtain rfl := Except.ok.inj hopen
    exact ⟨rfl, rfl, rfl⟩

theorem Opens.rest_eq (h : source.Opens r) : r.rest = source.bytes := by
  obtain ⟨replies, -, hopen⟩ := h
  exact (ahead_of_open hopen).1

theorem Opens.fault?_eq (h : source.Opens r) : r.fault? = source.fault? := by
  obtain ⟨replies, -, hopen⟩ := h
  exact (ahead_of_open hopen).2.1

theorem Opens.reliable (h : source.Opens r) (hfault : source.fault? = none) : r.Reliable := by
  obtain ⟨replies, hreplies, hopen⟩ := h
  obtain ⟨-, hsame, hleft⟩ := ahead_of_open hopen
  exact ⟨hsame.trans hfault, hleft ▸ hreplies⟩

theorem bytes_of_fault {fault : FileFault} (h : source.fault? = some fault) :
    source.bytes = [] := by
  cases source with
  | closed | unreadable => rfl
  | file | pipe => simp [fault?] at h

end Source

/-! ## Events -/

/-- The events of a stream: its parameters, once they are known, and its frames. -/
def Event.ofStream (info : Option StreamInfo) (frames : List Frame) : List Event :=
  match info with
  | none => []
  | some info => .info info :: frames.map .frame

namespace Delivery

/-- How a run over a stream ends for a worker. -/
def Ending.ofOutcome : Except Fault Unit → Ending
  | .ok () => .complete
  | .error fault => .failed (.stream fault)

/-- What a worker delivers of a stream. -/
def ofPlayback (t : Playback) : Delivery :=
  ⟨Event.ofStream t.decoder.info? t.frames, .ofOutcome t.outcome⟩

/-- What a worker remembers is what it has delivered. -/
structure Progress.Of (p : Progress) (info : Option StreamInfo) (frames : List Frame) : Prop where
  sent : p.sent.reverse = Event.ofStream info frames
  infoSent : p.infoSent = info.isSome
  counted : p.frames = frames.length
  /-- No frame comes before the parameters. -/
  unparsed : info = none → frames = []

theorem sendInfo_of {p : Progress} {info : Option StreamInfo} {frames : List Frame}
    (h : p.Of info frames) {d : Decoder} (hd : info = none ∨ d.info? = info) :
    ∃ p', sendInfo true p d = (p', true) ∧ p'.Of d.info? frames := by
  rcases hinfo : d.info? with _ | i
  · refine ⟨p, by simp [sendInfo, hinfo], ?_⟩
    rcases hd with rfl | rfl
    · exact h
    · rwa [hinfo] at h
  rcases info with _ | info
  · refine ⟨{ p with infoSent := true, sent := .info i :: p.sent }, ?_, ?_, rfl, h.counted, nofun⟩
    · have hsent : p.infoSent = false := h.infoSent
      simp [sendInfo, hinfo, hsent]
    · have hsent : p.sent = [] := by simpa [Event.ofStream] using h.sent
      simp [Event.ofStream, hsent, h.unparsed rfl]
  · have hsame : some i = some info := hinfo ▸ hd.resolve_left (by simp)
    refine ⟨p, ?_, hsame ▸ h⟩
    have hsent : p.infoSent = true := h.infoSent
    simp [sendInfo, hinfo, hsent]

theorem sendFrame_of {p : Progress} {info : Option StreamInfo} {frames : List Frame}
    (h : p.Of info frames) {status : Status} (hstatus : info = none → status.frames = []) :
    ∃ p', sendFrame true p status = (p', true) ∧ p'.Of info (frames ++ status.frames) := by
  rcases status with _ | _ | f | _
  case frame =>
    refine ⟨{ p with frames := p.frames + 1, sent := .frame f :: p.sent }, rfl, ?_, h.infoSent,
      ?_, fun hnone => by simpa [Status.frames] using hstatus hnone⟩
    · rcases info with _ | info
      · simpa [Status.frames] using hstatus rfl
      · have hsent : p.sent.reverse = .info info :: frames.map .frame := h.sent
        simp [Event.ofStream, hsent, Status.frames]
    · simp [h.counted, Status.frames]
  all_goals exact ⟨p, rfl, by simpa [Status.frames] using h⟩

/-- A worker that is listened to never stops, and has delivered what lies behind its decoder. -/
theorem tracks_listener : (listener true).Tracks Progress.Of where
  hears := by
    intro p info frames d status h hd hstatus
    obtain ⟨p₁, hinfo, h₁⟩ := sendInfo_of h hd
    have hstatus' (hnone : d.info? = none) : status.frames = [] := by
      rcases hd with hd | hd
      · exact hstatus hd
      · exact hstatus (hd ▸ hnone)
    obtain ⟨p₂, hframe, h₂⟩ := sendFrame_of h₁ hstatus'
    exact ⟨p₂, by simp [listener, hinfo, hframe], h₂⟩

theorem start_of : Progress.start.Of none [] :=
  ⟨rfl, rfl, rfl, fun _ => rfl⟩

section

variable [Memory] {r : Reader} {size : Nat}

/-- **A worker delivers what lies in its source**, if there is room for it and for the chunks. -/
theorem delivery_of_reader (hr : r.Reliable) (hheld : PendingInput.CanHold r.rest.length)
    (failLevel : Level) (hbuffer : Memory.allocate (max 1 size) = .ok ()) :
    ∃ t : Playback, t.transcript = Transcript.ahead failLevel none (Bits.ofBytes r.rest) ∧
      (ofSource true (.ok r) size (.ofLevel failLevel)).value = ofPlayback t := by
  obtain ⟨t, intake, htaken, ht, -, hsent⟩ :=
    takeIn_of_tracks tracks_listener hbuffer hr failLevel .start start_of hheld
  refine ⟨t, ht, ?_⟩
  rw [ofSource, Logged.value_bind, htaken]
  rcases houtcome : t.outcome with fault | _
  all_goals simp [ofPlayback, Ending.ofOutcome, houtcome, hsent.sent, listener]

/-- A worker that cannot read its source delivers nothing but the reason. -/
theorem delivery_of_fault {fault : FileFault} (hfault : r.fault? = some fault)
    (hbuffer : Memory.allocate (max 1 size) = .ok ()) (d : Decoder) :
    (ofSource true (.ok r) size d).value = ⟨[], .failed (.file fault)⟩ := by
  rw [ofSource, Logged.value_bind, value_takeIn_of_fault _ hbuffer hfault]
  rfl

/-- A worker without a buffer for the chunks breaks down, and delivers nothing. -/
theorem delivery_of_breakdown {breakdown : Breakdown}
    (hbuffer : Memory.allocate (max 1 size) = .error breakdown) (heard : Bool) (d : Decoder) :
    (ofSource heard (.ok r) size d).value = ⟨[], .lost breakdown⟩ := by
  rw [ofSource, Logged.value_bind, value_takeIn_of_breakdown hbuffer]
  rfl

end

end Delivery

end LosslessAudio
