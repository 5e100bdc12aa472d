import LosslessAudio.Proofs.AudioImage
import LosslessAudio.Proofs.Inspection
import LosslessAudio.Proofs.Threads

/-!
# Transcoding a stream

What a transcoding leaves depends on the stream alone: neither on the size of the chunks nor on the
schedule of its two threads.

* `Recorder.Holds` — what a recorder has made of the front of a stream.
* `Threads.Agree` — what the main thread handles, what it returns, and what the audio file holds
  then, in terms of what the decoder makes of the stream.
* `transcoding_independent_of_schedule` — so it is, for every schedule and every size of the chunks.
-/

set_option autoImplicit false

namespace LosslessAudio

/-! ## The recorder -/

/-- The audio file with the frames of a stream, if there is one: it takes a target, and the
parameters of the stream. -/
def AudioFormat.fileOf (format : AudioFormat) (target : Option Path) (finished : Bool)
    (info : Option StreamInfo) (frames : List Frame) : Option (Path × Bytes) :=
  match target, info with
  | some target, some info => some (format.pathAt target,
      format.image finished info.sampleRate info.channels (frames.flatMap Frame.samples))
  | _, _ => none

namespace Recorder

/-- The recorder has handled the parameters of a stream, if they are known, and some frames. -/
structure Holds (r : Recorder) (target : Option Path) (format : AudioFormat)
    (info : Option StreamInfo) (frames : List Frame) : Prop where
  info_eq : r.info = info
  frames_eq : r.frames = frames.length
  samples_eq : r.samples = (frames.map Frame.blockSize).sum
  /-- There is an audio file exactly if it has a place and parameters. -/
  audio : match target, info with
    | some target, some info => ∃ a, r.audio = some (format.pathAt target, a) ∧ a.format = format ∧
        a.Holds info.sampleRate info.channels (frames.flatMap Frame.samples)
    | _, _ => r.audio = none

variable {r : Recorder} {target : Option Path} {format : AudioFormat} {info : StreamInfo}
  {frames : List Frame} {creationFault? : Path → Option FileFault}

theorem holds_start (target : Option Path) (format : AudioFormat) :
    (start target format).Holds target format none [] :=
  ⟨rfl, rfl, rfl, by rcases target with _ | _ <;> rfl⟩

/-- The parameters of a stream create the audio file. -/
theorem holds_begin
    (hcreated : ∀ path, target = some path → creationFault? (format.pathAt path) = none)
    (hchannels : info.channels ≤ StreamInfo.maxChannels) :
    ∃ r, ((start target format).begin creationFault? info).value = (r, .ok ()) ∧
      r.Holds target format (some info) [] := by
  rcases target with _ | path
  · exact ⟨_, rfl, rfl, rfl, rfl, rfl⟩
  · have hfew : info.channels < 32768 := Nat.lt_of_le_of_lt hchannels (by decide)
    have hmany : info.channels ≤ maxChannels := Nat.le_trans hchannels (by decide)
    obtain ⟨a, hcreate, hformat, hholds⟩ :=
      AudioFile.exists_create format info.sampleRate hfew
    have haudio : (start (some path) format).createAudio creationFault? path info =
        .ok (format.pathAt path, a) := by
      have hfree : creationFault? (path.withSuffix format.name.toUTF8.toList) = none :=
        hcreated path rfl
      rw [createAudio, (ensure_eq_ok (u := ())).2 hmany, ok_bind, AudioFile.createAt]
      simp only [start, hfree, hcreate]
      rfl
    refine ⟨{ start (some path) format with info, audio := some (format.pathAt path, a) }, ?_,
      rfl, rfl, rfl, a, rfl, hformat, hholds⟩
    rw [begin, Logged.value_bind]
    simp only [start] at haudio ⊢
    rw [haudio]
    rfl

theorem add_of_info (h : r.info = some info) (frame : Frame) :
    r.add frame = ({ r with
      audio := r.audio.map fun (path, file) => (path, file.writeSamples frame.samples)
      samples := r.samples + frame.blockSize
      frames := r.frames + 1 }, .ok ()) := by
  simp only [add, h]

/-- A frame is written and counted. -/
theorem Holds.add (h : r.Holds target format (some info) frames) (frame : Frame) :
    ∃ r', r.add frame = (r', .ok ()) ∧ r'.Holds target format (some info) (frames ++ [frame]) := by
  refine ⟨_, add_of_info h.info_eq frame, h.info_eq, ?_, ?_, ?_⟩
  · simp [h.frames_eq]
  · simp [h.samples_eq]
  · have haudio := h.audio
    rcases target with _ | path
    · simpa using haudio
    · obtain ⟨a, ha, hformat, hholds⟩ := haudio
      refine ⟨a.writeSamples frame.samples, by simp [ha], by simp [hformat], ?_⟩
      simpa using hholds.writeSamples frame.samples

/-- So are all frames. -/
theorem Holds.record (h : r.Holds target format (some info) frames)
    (creationFault? : Path → Option FileFault) (more : List Frame) :
    ∃ r', (Transcoding.record creationFault? r (more.map .frame)).value = (r', .ok ()) ∧
      r'.Holds target format (some info) (frames ++ more) := by
  induction more generalizing r frames with
  | nil => exact ⟨r, rfl, by simpa using h⟩
  | cons frame more ih =>
    obtain ⟨r₁, hadd, h₁⟩ := h.add frame
    obtain ⟨r', hrecord, h'⟩ := ih h₁
    refine ⟨r', ?_, by simpa using h'⟩
    simp only [List.map_cons, Transcoding.record, handle, Logged.value_bind, Logged.value_pure,
      hadd]
    exact hrecord

/-- Whatever was handled, the parameters are known then. -/
theorem info_isSome_of_handle {r r' : Recorder} {event : Event}
    (h : (r.handle creationFault? event).value = (r', .ok ())) : r'.info.isSome := by
  rcases event with info | frame
  · simp only [handle, begin, Logged.value_bind] at h
    rcases htarget : r.target with _ | target
    · simp only [htarget, Logged.value_pure] at h
      rw [← (Prod.mk.inj h).1]
      rfl
    · rcases haudio : r.createAudio creationFault? target info with e | ⟨path, a⟩
      · simp [htarget, haudio] at h
      · simp only [htarget, haudio, Logged.value_bind, Logged.value_pure] at h
        rw [← (Prod.mk.inj h).1]
        rfl
  · rw [handle, Logged.value_pure, add] at h
    rcases hinfo : r.info with _ | info
    · simp [hinfo] at h
    · simp only [hinfo] at h
      rw [← (Prod.mk.inj h).1]
      rfl

theorem info_isSome_of_record {r r' : Recorder} {events : List Event}
    (h : (Transcoding.record creationFault? r events).value = (r', .ok ()))
    (hevents : events ≠ []) : r'.info.isSome := by
  induction events generalizing r with
  | nil => exact absurd rfl hevents
  | cons event events ih =>
    rw [Transcoding.record, Logged.value_bind] at h
    rcases hhandle : (r.handle creationFault? event).value with ⟨r₁, e | _⟩
    · simp [hhandle] at h
    · rw [hhandle] at h
      rcases events with _ | ⟨event', events⟩
      · rw [← (Prod.mk.inj h).1]
        exact info_isSome_of_handle hhandle
      · exact ih h (List.cons_ne_nil _ _)

/-- As long as it is not finished, the audio file has no sizes. -/
theorem Holds.output_eq {info : Option StreamInfo} (h : r.Holds target format info frames) :
    r.output = format.fileOf target false info frames := by
  have haudio := h.audio
  rcases target with _ | path <;> rcases info with _ | info
  case some.some =>
    obtain ⟨a, ha, rfl, hholds⟩ := haudio
    simp [output, ha, AudioFormat.fileOf, hholds.close_eq]
  all_goals
    dsimp only at haudio
    simp [output, haudio, AudioFormat.fileOf]

/-- When all events have arrived, it gets them. -/
theorem Holds.exists_finish {info : Option StreamInfo} (h : r.Holds target format info frames)
    (hsize : target.isSome → format = .wave →
      36 + 2 * (frames.flatMap Frame.samples).length < Chunk.lengthLimit) :
    ∃ r', r.finish.value = (r', .ok ()) ∧ r'.frames = r.frames ∧ r'.samples = r.samples ∧
      r'.output = format.fileOf target true info frames := by
  have haudio := h.audio
  rcases target with _ | path <;> rcases info with _ | info
  case some.some =>
    obtain ⟨a, ha, rfl, hholds⟩ := haudio
    obtain ⟨a', hfinish, hclose⟩ := hholds.exists_finish (hsize rfl)
    refine ⟨{ r with audio := some (a.format.pathAt path, a') }, ?_, rfl, rfl, ?_⟩
    · simp only [finish, ha, hfinish]
      rfl
    · simp [output, AudioFormat.fileOf, hclose]
  all_goals
    dsimp only at haudio
    refine ⟨r, by simp [finish, haudio], rfl, rfl, ?_⟩
    simp [output, haudio, AudioFormat.fileOf]

/-- The events of a stream are recorded without a failure. -/
theorem exists_record_ofStream
    (hcreated : ∀ path, target = some path → creationFault? (format.pathAt path) = none)
    {info : Option StreamInfo}
    (hchannels : ∀ i, info = some i → i.channels ≤ StreamInfo.maxChannels)
    (hframes : info = none → frames = []) :
    ∃ r, (Transcoding.record creationFault? (start target format)
        (Event.ofStream info frames)).value = (r, .ok ()) ∧ r.Holds target format info frames := by
  rcases info with _ | info
  · rw [hframes rfl]
    exact ⟨_, rfl, holds_start target format⟩
  · obtain ⟨r₁, hbegin, h₁⟩ := holds_begin hcreated (hchannels info rfl)
    obtain ⟨r, hrecord, h⟩ := h₁.record creationFault? frames
    refine ⟨r, ?_, h⟩
    simp only [Event.ofStream, Transcoding.record, handle, Logged.value_bind, hbegin]
    exact hrecord

end Recorder

/-! ## The stream -/

namespace Transcript

variable {failLevel : Level} {bits : List Bool} {info : StreamInfo}

/-- The parameters of a stream are known exactly if its header is accepted. -/
theorem info_ahead_iff [Memory] : (ahead failLevel none bits).stream.map Stream.info = some info ↔
    ∃ r s, (StreamInfo.read failLevel ⟨0, bits⟩).outcome = .ok (info, r) ∧
      Stream.start info = .ok s := by
  refine ⟨fun h => ?_, fun ⟨r, s, hread, hstart⟩ => info_ahead hread hstart⟩
  rcases hread : (StreamInfo.read failLevel ⟨0, bits⟩).outcome with fault | ⟨info', r⟩
  · simp [ahead, hread, failed, unplaced] at h
  rcases hstart : Stream.start info' with fault | s
  · simp [ahead, hread, hstart, failed, unplaced] at h
  · rw [info_ahead hread hstart, Option.some.injEq] at h
    subst h
    exact ⟨r, s, rfl, hstart⟩

/-- A stream whose header is not accepted has no frames. -/
theorem frames_ahead [Memory] (h : (ahead failLevel none bits).stream = none) :
    (ahead failLevel none bits).frames = [] := by
  rcases hread : (StreamInfo.read failLevel ⟨0, bits⟩).outcome with fault | ⟨info, r⟩
  · simp [ahead, hread, failed, unplaced]
  rcases hstart : Stream.start info with fault | s
  · simp [ahead, hread, hstart, failed, unplaced]
  · have := info_ahead hread hstart
    simp [h] at this

end Transcript

namespace Playback

variable {played : Playback} {failLevel : Level} {bits : List Bool}

theorem info?_iff [Memory] (h : played.transcript = Transcript.ahead failLevel none bits)
    {info : StreamInfo} : played.decoder.info? = some info ↔
      ∃ r s, (StreamInfo.read failLevel ⟨0, bits⟩).outcome = .ok (info, r) ∧
        Stream.start info = .ok s := by
  rw [← Transcript.info_ahead_iff, ← h]
  rfl

theorem frames_of_unparsed [Memory] (h : played.transcript = Transcript.ahead failLevel none bits)
    (hinfo : played.decoder.info? = none) : played.frames = [] := by
  have hstream : (Transcript.ahead failLevel none bits).stream = none := by
    rw [← h]
    exact Option.map_eq_none_iff.1 hinfo
  rw [← Transcript.frames_ahead hstream, ← h]
  rfl

end Playback

namespace Transcoding

variable (t : Transcoding) (surroundings : Surroundings) (reader : Reader) (played : Playback)

/-- How a transcoding ends that plays what a reader gives. -/
def resultOf : Except Failure Unit :=
  match reader.fault? with
  | some fault => .error (.file fault)
  | none => played.outcome.mapError .stream

/-- Nothing stands against writing the audio file: it can be created, and if it is finished, its
sizes fit into their fields. -/
structure Writable : Prop where
  created : ∀ target, t.output = some target →
    surroundings.creationFault? (t.format.pathAt target) = none
  fits : played.outcome = .ok () → t.output.isSome → t.format = .wave →
    36 + 2 * (played.frames.flatMap Frame.samples).length < Chunk.lengthLimit

variable {t surroundings reader played}

/-- A transcoding is the recording of what its worker delivers. -/
theorem value_run [Memory] (hopen : surroundings.openInput t.input = .ok reader) :
    (t.run surroundings).value = (recordDelivery surroundings.creationFault?
      (.start t.output t.format) (Threads.delivery t surroundings)).value := by
  simp only [run, Logged.value_bind, hopen, Threads.delivery]
  -- that the size is unknown, and the summary, are only logged
  split
  all_goals
    simp only [Logged.value_bind]
    generalize (recordDelivery _ _ _).value = recorded
    rcases recorded with breakdown | ⟨r, e | _⟩ <;> rfl

end Transcoding

namespace Threads

open Transcoding

variable {t : Transcoding} {surroundings : Surroundings} {source : Source} {reader : Reader}
  {played : Playback}

/-- What the worker delivers is what is played, however long the chunks are.  A source that can be
opened and not read comes to the same as an empty one, but for the failure. -/
theorem delivery_of_played [Memory] (hopen : surroundings.openInput t.input = .ok reader)
    (hopens : source.Opens reader) (hheld : PendingInput.CanHold reader.rest.length)
    (hplayed : played.transcript =
      Transcript.ahead (failLevelOf t.strict) none (Bits.ofBytes reader.rest))
    (hbuffer : Memory.allocate (max 1 t.chunkSize) = .ok ()) :
    (delivery t surroundings).events = Event.ofStream played.decoder.info? played.frames ∧
      (((delivery t surroundings).ending = .complete ∧ resultOf reader played = .ok () ∧
        played.outcome = .ok ()) ∨
        ∃ e e', (delivery t surroundings).ending = .failed e ∧ resultOf reader played = .error e' ∧
          e.unplaced = e'.unplaced ∧ played.outcome.isOk = false) := by
  rw [delivery, hopen]
  rcases hfault : reader.fault? with _ | fault
  · obtain ⟨t', ht', hdelivery⟩ := Delivery.delivery_of_reader
      (hopens.reliable (hopens.fault?_eq.symm.trans hfault)) hheld (failLevelOf t.strict) hbuffer
    obtain ⟨hframes, hstream, houtcome⟩ := Playback.transcript_inj.1 (ht'.trans hplayed.symm)
    have hinfo : t'.decoder.info? = played.decoder.info? := by
      rw [Decoder.info?, Decoder.info?, hstream]
    rw [hdelivery, Delivery.ofPlayback, hframes, hinfo, resultOf, hfault]
    refine ⟨rfl, ?_⟩
    rcases ho : t'.outcome with fault | _ <;> rcases ho' : played.outcome with fault' | _ <;>
      simp only [ho, ho', mapError_error, mapError_ok, Except.error.injEq, reduceCtorEq] at houtcome
    · exact .inr ⟨_, _, rfl, rfl, congrArg Failure.stream houtcome, rfl⟩
    · exact .inl ⟨rfl, rfl, rfl⟩
  · have hempty := Source.bytes_of_fault (hopens.fault?_eq.symm.trans hfault)
    rw [hopens.rest_eq, hempty] at hplayed
    have hnone : played.decoder.info? = none := by
      refine Option.eq_none_iff_forall_not_mem.2 fun info hinfo => ?_
      obtain ⟨r, s, hread, -⟩ := (Playback.info?_iff hplayed).1 hinfo
      exact StreamInfo.not_read_nil _ hread
    have hrefused : played.outcome.isOk = false := by
      rcases ho : played.outcome with fault | _
      · rfl
      · have hok : played.transcript.outcome = .ok () := by
          rw [Playback.transcript, Transcript.unplaced, ho]
          rfl
        obtain ⟨info, r, s, hread, -⟩ := Transcript.accepted_of_ok (hplayed ▸ hok)
        exact absurd hread (StreamInfo.not_read_nil _)
    rw [Delivery.delivery_of_fault hfault hbuffer, hnone, resultOf, hfault]
    exact ⟨rfl, .inr ⟨_, _, rfl, rfl, rfl, hrefused⟩⟩

/-- What holds of the threads at any time, if nothing stands against writing the audio file. -/
structure Agree [Memory] (t : Transcoding) (surroundings : Surroundings) (reader : Reader)
    (played : Playback) (s : Threads) : Prop where
  /-- The main thread handles the parameters, once, and then the frames, in their order. -/
  handled : s.handled <+: Event.ofStream played.decoder.info? played.frames
  /-- No frame arrives before the parameters. -/
  informed : ∀ r frame channel, s.main = .receiving r → s.channel = .ok (.frame frame) :: channel →
    r.info.isSome
  /-- As long as the main thread receives, one of the threads moves. -/
  moves : s.main.isReceiving → ∃ thread s', s.step? t surroundings thread = some s'
  /-- In the end, all was handled and is in the audio file, which is finished if the stream ended
  well; and the result is that of the stream, as the threads give it when they run in order. -/
  returned : ∀ r result, s.main = .returned r result →
    s.handled = Event.ofStream played.decoder.info? played.frames ∧
    result.mapError Failure.unplaced = (resultOf reader played).mapError Failure.unplaced ∧
    r.frames = played.frames.length ∧ r.samples = (played.frames.map Frame.blockSize).sum ∧
    r.output = t.format.fileOf t.output played.outcome.isOk played.decoder.info? played.frames ∧
    (t.run surroundings).value = .ok (r, result)

/-- **Whatever the schedule, the threads agree with what is played.** -/
theorem agree_of_run [Memory] (hopen : surroundings.openInput t.input = .ok reader)
    (hopens : source.Opens reader) (hheld : PendingInput.CanHold reader.rest.length)
    (hplayed : played.transcript =
      Transcript.ahead (failLevelOf t.strict) none (Bits.ofBytes reader.rest))
    (hbuffer : Memory.allocate (max 1 t.chunkSize) = .ok ()) (hapart : t.Apart surroundings)
    (hwritable : t.Writable surroundings played) :
    ∃ moves, ∀ schedule s, (start t).run? t surroundings schedule = some s →
      schedule.length ≤ moves ∧ Agree t surroundings reader played s := by
  obtain ⟨hevents, hending⟩ := delivery_of_played hopen hopens hheld hplayed hbuffer
  have halive : (delivery t surroundings).ending ≠ .lost .abort := by
    rcases hending with ⟨hcomplete, -⟩ | ⟨e, e', hfailed, -⟩
    · simp [hcomplete]
    · simp [hfailed]
  have hchannels (info : StreamInfo) (hinfo : played.decoder.info? = some info) :
      info.channels ≤ StreamInfo.maxChannels := by
    obtain ⟨r, s, hread, -⟩ := (Playback.info?_iff hplayed).1 hinfo
    exact (StreamInfo.sound_of_read hread).channels_le
  obtain ⟨r, hrecord, hholds⟩ := Recorder.exists_record_ofStream hwritable.created hchannels
    (Playback.frames_of_unparsed hplayed)
  rw [← hevents] at hrecord
  have hok : (recorded t surroundings (delivery t surroundings).events).2 = .ok () :=
    congrArg Prod.snd hrecord
  obtain ⟨k, hcourse⟩ := exists_course t surroundings fun reader' hopen' => by
    rw [← Except.ok.inj (hopen.symm.trans hopen')]
    exact hheld
  refine ⟨k, fun schedule s hrun => ?_⟩
  obtain ⟨k', h, hle⟩ := hcourse.run hapart hrun
  refine ⟨Nat.le_trans (Nat.le_add_left _ _) (hle hok), hevents ▸ h.handled_prefix, ?_,
    h.exists_step hapart halive, ?_⟩
  · intro r' frame channel hmain hchannel
    obtain ⟨n, hcourse'⟩ := h.onCourse_of_receiving hmain
    obtain ⟨more, hnext⟩ := hcourse'.exists_next hchannel
    refine Recorder.info_isSome_of_record hcourse'.records fun hnothing => ?_
    -- a frame is not the first event
    rw [hnothing, hevents] at hnext
    rcases hinfo : played.decoder.info? with _ | info <;> simp [hinfo, Event.ofStream] at hnext
  · intro r' result hmain
    obtain ⟨hvalue, hall⟩ := h.returned hmain
    rw [value_run hopen, hvalue, ← hevents]
    rw [value_recordDelivery hrecord] at hvalue
    refine ⟨hall hok, ?_⟩
    rcases hending with ⟨hcomplete, hresult, houtcome⟩ | ⟨e, e', hfailed, hresult, he, hrefused⟩
    · obtain ⟨r'', hfinish, hframes, hsamples, houtput⟩ :=
        hholds.exists_finish (hwritable.fits houtcome)
      rw [hcomplete, hfinish] at hvalue
      obtain ⟨rfl, rfl⟩ := Prod.mk.inj (Except.ok.inj hvalue)
      rw [hresult, hframes, hsamples, houtput, houtcome]
      exact ⟨rfl, hholds.frames_eq, hholds.samples_eq, rfl, rfl⟩
    · rw [hfailed] at hvalue
      obtain ⟨rfl, rfl⟩ := Prod.mk.inj (Except.ok.inj hvalue)
      rw [hresult, hrefused]
      exact ⟨congrArg Except.error he, hholds.frames_eq, hholds.samples_eq, hholds.output_eq, rfl⟩

end Threads

open Threads in
/-- **What a transcoding leaves depends on the stream alone.**  `played` is what the decoder gives
to a caller who offers the whole source at once; the parameters in it are those of the header, if it
is accepted.  Where nothing stands against writing the audio file, the threads agree with it after
every schedule, for chunks of every size that there is a buffer for, however much each read gives.
No schedule has more than `moves` moves, and none gets stuck before the main thread returns
(`Agree.moves`).

The audio file has to be another one than the one that is read: the worker would find in it what
was written so far. -/
theorem transcoding_independent_of_schedule [Memory] (t : Transcoding) (surroundings : Surroundings)
    {reader : Reader} (hopen : surroundings.openInput t.input = .ok reader)
    (hreplies : ∀ fault, Reply.fails fault ∉ surroundings.replies)
    (hheld : PendingInput.CanHold reader.rest.length) (hapart : t.Apart surroundings) :
    ∃ played : Playback, Plays (.ofLevel (Transcoding.failLevelOf t.strict)) [reader.rest] played ∧
      (∀ info, played.decoder.info? = some info ↔ ∃ r s,
        (StreamInfo.read (Transcoding.failLevelOf t.strict) ⟨0, Bits.ofBytes reader.rest⟩).outcome =
          .ok (info, r) ∧ Stream.start info = .ok s) ∧
      (t.Writable surroundings played → ∀ size, Memory.allocate (max 1 size) = .ok () →
        ∃ moves, ∀ schedule s,
          (start { t with chunkSize := size }).run? { t with chunkSize := size } surroundings
            schedule = some s → schedule.length ≤ moves ∧
              Agree { t with chunkSize := size } surroundings reader played s) := by
  have hheld' : PendingInput.CanHold [reader.rest].flatten.length := by simpa using hheld
  obtain ⟨played, hplays, hplayed⟩ := playsOut_start PendingInput.defaultFrameSize
    (Transcoding.failLevelOf t.strict) hheld'
  rw [List.flatten_singleton] at hplayed
  refine ⟨played, hplays, fun info => Playback.info?_iff hplayed, fun hwritable size hbuffer => ?_⟩
  have hopens : (surroundings.input t.input).Opens reader := ⟨_, hreplies, hopen⟩
  exact agree_of_run (t := { t with chunkSize := size }) hopen hopens hheld hplayed hbuffer hapart
    ⟨hwritable.created, hwritable.fits⟩

/-- The samples of a stereo stream are to be written to a file. -/
def stereoTranscoding (chunkSize : Nat) : Transcoding where
  input := .ofString "in"
  output := some (.ofString "out")
  format := .bare
  chunkSize
  strict := true

/-- Nothing stands against that in a folder that holds the stream.  The first reads give less than
they are asked for. -/
def stereoSurroundings : Surroundings :=
  let folder : Folder := ⟨[((Path.ofString "in").bytes, stereoStream)]⟩
  { folder.surroundings [] with replies := [.gives 20 7, .interrupted, .gives 1 1] }

/-- The main thread takes the parameters at once, and the frames when both have been sent. -/
def stereoSchedule : List Thread :=
  .replicate 24 .worker ++ .main :: .replicate 10 .worker ++ [.main, .main] ++
    .replicate 6 .worker ++ [.main]

theorem open_stereo (chunkSize : Nat) :
    stereoSurroundings.openInput (stereoTranscoding chunkSize).input =
      .ok ⟨false, some stereoStream.length, none, stereoSurroundings.replies, [], stereoStream,
        0⟩ := by
  have hsource : stereoSurroundings.input (.ofString "in") = .file stereoStream := by
    decide +kernel
  rw [Surroundings.openInput, show (stereoTranscoding chunkSize).input = .ofString "in" from rfl,
    hsource]
  rfl

theorem apart_stereo (chunkSize : Nat) :
    (stereoTranscoding chunkSize).Apart stereoSurroundings := by
  have hplaces : ∀ path ∈ (stereoTranscoding 0).places,
      stereoSurroundings.overwrites path (stereoTranscoding 0).input = false := by
    decide +kernel
  exact hplaces

open scoped Memory in
theorem transcoding_independent_of_schedule_stereo : ∃ (played : Playback) (s : Threads),
    Plays (.ofLevel .warn) [stereoStream] played ∧
      (Threads.start (stereoTranscoding 30)).run? (stereoTranscoding 30) stereoSurroundings
        stereoSchedule = some s ∧ s.main.isReceiving = false ∧ s.handled.length = 3 ∧
      s.handled = Event.ofStream played.decoder.info? played.frames := by
  obtain ⟨played, hplays, -, hschedules⟩ := transcoding_independent_of_schedule
    (stereoTranscoding 1) stereoSurroundings (open_stereo 1) (by simp [stereoSurroundings])
    ⟨by decide, fun _ _ => rfl⟩ (apart_stereo 1)
  have hcreated : stereoSurroundings.creationFault?
      (AudioFormat.bare.pathAt (.ofString "out")) = none := by
    decide +kernel
  have hwritable : (stereoTranscoding 1).Writable stereoSurroundings played :=
    ⟨fun target htarget => Option.some.inj htarget ▸ hcreated, fun _ _ => nofun⟩
  obtain ⟨moves, hmoves⟩ := hschedules hwritable 30 rfl
  have hruns : ((Threads.start (stereoTranscoding 30)).run? (stereoTranscoding 30)
      stereoSurroundings stereoSchedule).map (fun s => (s.main.isReceiving, s.handled.length)) =
        some (false, 3) := by
    decide +kernel
  obtain ⟨s, hs, hend⟩ := Option.map_eq_some_iff.1 hruns
  obtain ⟨hmain, hhandled⟩ := Prod.mk.inj hend
  obtain ⟨r, result, hreturned⟩ : ∃ r result, s.main = .returned r result := by
    rcases hs' : s.main with r | ⟨r, result⟩
    · simp [hs', MainThread.isReceiving] at hmain
    · exact ⟨r, result, rfl⟩
  exact ⟨played, s, hplays, hs, hmain, hhandled, ((hmoves _ s hs).2.returned r result hreturned).1⟩

open scoped Memory in
/-- The worker that is to hold chunks of 2^63 bytes breaks down before it reads anything. -/
theorem transcoding_loses_worker :
    (∃ r, ((stereoTranscoding 30).run stereoSurroundings).value = .ok (r, .ok ())) ∧
      ∃ s r, (Threads.start (stereoTranscoding (2 ^ 63))).run?
          (stereoTranscoding (2 ^ 63)) stereoSurroundings [.worker, .main] = some s ∧
        s.handled = [] ∧ s.main = .returned r (.error .workerLost) := by
  refine ⟨?_, ?_⟩
  · have hok : (((stereoTranscoding 30).run stereoSurroundings).value.toOption.map
        fun x => x.2.isOk) = some true := by
      decide +kernel
    rcases hresult : ((stereoTranscoding 30).run stereoSurroundings).value with
      breakdown | ⟨r, e | _⟩
    · simp [hresult, Except.toOption] at hok
    · simp [hresult, Except.toOption, Except.isOk, Except.toBool] at hok
    · exact ⟨r, rfl⟩
  · refine ⟨{ Threads.start (stereoTranscoding (2 ^ 63)) with
      worker := .lost .panic
      main := .returned (.start (some (.ofString "out")) .bare) (.error .workerLost) }, _, ?_, rfl,
      rfl⟩
    simp [Threads.run?, Threads.step?, Threads.start, Threads.work?, Threads.receive?, Worker.step,
      open_stereo]
    rfl

end LosslessAudio
