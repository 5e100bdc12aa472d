import Mathlib.Algebra.GroupWithZero.Nat
import LosslessAudio.Inspection
import LosslessAudio.Proofs.Deliveries
import LosslessAudio.Proofs.Truncation

/-!
# Inspecting a stream and decoding it

An inspection and a transcoding run the same decoder, each with a listener of its own, in chunks of
its own, and with its own idea of when to stop.  This file says that they agree.

* `Report.tracks_listener` — an inspection of the whole stream counts its blocks and samples.
* `HeadedBy` and `upholds_headerOnly` — an inspection of the header waits for the header and stops
  there, whatever lies behind it.
* `report_agrees` — what an inspection says, and what a worker delivers of the same source.
-/

set_option autoImplicit false

namespace LosslessAudio

/-- A failure without what it says about the buffered input. -/
def Failure.unplaced : Failure → Failure
  | .stream fault => .stream fault.unplaced
  | failure => failure

namespace Report

/-! ## The whole stream -/

/-- What the blocks of a stream amount to. -/
def totalsOf (frames : List Frame) : Totals :=
  ⟨frames.length, (frames.map Frame.blockSize).sum⟩

/-- An inspection of the whole stream never stops, and has counted what lies behind its decoder. -/
theorem tracks_listener :
    (listener false).Tracks fun totals _ frames => totals = totalsOf frames where
  hears := by
    rintro totals info frames d status rfl - -
    refine ⟨_, rfl, ?_⟩
    rcases status with _ | _ | f | _
    all_goals simp [count, totalsOf, Status.frames]

section

variable [Memory] {r : Reader} {size : Nat}

/-- **An inspection of the whole stream** reports on what lies in it. -/
theorem report_of_reader (hr : r.Reliable) (hheld : PendingInput.CanHold r.rest.length)
    (failLevel : Level) (hbuffer : Memory.allocate (max 1 size) = .ok ()) :
    ∃ t : Playback, t.transcript = Transcript.ahead failLevel none (Bits.ofBytes r.rest) ∧
      match t.outcome with
      | .ok () => ∃ info r' s bytes,
        (StreamInfo.read failLevel ⟨0, Bits.ofBytes r.rest⟩).outcome = .ok (info, r') ∧
        Stream.start info = .ok s ∧ t.decoder.info? = some info ∧
        (ofReader false r size failLevel).value =
          .ok (.ok (some ⟨info, bytes, some (totalsOf t.frames)⟩))
      | .error fault => (ofReader false r size failLevel).value = .ok (.error (.stream fault)) := by
  obtain ⟨t, intake, htaken, ht, hdecoder, htotals⟩ :=
    takeIn_of_tracks tracks_listener hbuffer hr failLevel ⟨0, 0⟩ rfl hheld
  refine ⟨t, ht, ?_⟩
  rw [ofReader, Logged.value_bind, htaken]
  rcases houtcome : t.outcome with fault | _
  · simp [listener]
  · have hok : (Transcript.ahead failLevel none (Bits.ofBytes r.rest)).outcome = .ok () := by
      rw [← ht, Playback.transcript, Transcript.unplaced, houtcome]
      rfl
    obtain ⟨info, r', s, hread, hstart⟩ := Transcript.accepted_of_ok hok
    have hinfo := Playback.info?_of_transcript ht hread hstart
    refine ⟨info, r', s, intake.bytes, hread, hstart, hinfo, ?_⟩
    rw [hdecoder] at hinfo
    simp [hinfo, htotals]

/-- A source that cannot be read is not reported on. -/
theorem value_ofReader_of_fault (headerOnly : Bool) {fault : FileFault}
    (hfault : r.fault? = some fault) (hbuffer : Memory.allocate (max 1 size) = .ok ())
    (failLevel : Level) :
    (ofReader headerOnly r size failLevel).value = .ok (.error (.file fault)) := by
  rw [ofReader, Logged.value_bind, value_takeIn_of_fault _ hbuffer hfault]
  rfl

/-- An inspection without a buffer for the chunks breaks down. -/
theorem value_ofReader_of_breakdown (headerOnly : Bool) {breakdown : Breakdown}
    (hbuffer : Memory.allocate (max 1 size) = .error breakdown) (failLevel : Level) :
    (ofReader headerOnly r size failLevel).value = .error breakdown := by
  rw [ofReader, Logged.value_bind, value_takeIn_of_breakdown hbuffer]
  rfl

end

end Report

/-! ## The header -/

/-- The decoder has not read the header yet, and what is pending and still to come begins with the
header that says `info`. -/
structure Decoder.HeadedBy (d : Decoder) (failLevel : Level) (info : StreamInfo) (rest : Bytes) :
    Prop where
  active : d.condition = .active
  failLevel_eq : d.failLevel = failLevel
  unparsed : d.stream = none
  read : ∃ r, (StreamInfo.read failLevel ⟨0, d.input.unread ++ Bits.ofBytes rest⟩).outcome =
    .ok (info, r)

namespace Decoder

variable {d d' : Decoder} {offered : Option Bytes} {rest : Bytes} {failLevel : Level}
  {info : StreamInfo}

/-- What a pass over the front of the input makes of the header. -/
theorem Heads.of_read [Memory] {flush : Bool} {r : BitReader} {tail : List Bool}
    (htail : flush = true → tail = [])
    (hread : ∃ r', (StreamInfo.read failLevel (r.within 0 tail)).outcome = .ok (info, r'))
    {stream : Option Stream} {outcome : Except Fault (Stream.PassEnd × BitReader)}
    (h : Heads failLevel flush r (stream, outcome)) :
    (stream = none ∧ outcome = .ok (.suspended, r)) ∨
    (∃ fault, outcome = .error fault ∧ Stream.start info = .error fault) ∨
    ∃ s r', stream = some s ∧ outcome = .ok (.paused, r') ∧ Stream.start info = .ok s := by
  obtain ⟨r', hread⟩ := hread
  -- a header that is read in the front is the header
  have same {info' : StreamInfo} {r'' : BitReader}
      (hfront : (StreamInfo.read failLevel r).outcome = .ok (info', r'')) : info' = info := by
    obtain ⟨n, -, hok⟩ := (StreamInfo.selfDelimiting_read failLevel).ok hfront
    have hall := hread.symm.trans (hok 0 tail)
    exact (Prod.mk.inj (Except.ok.inj hall)).1.symm
  rcases h with _ | ⟨hfront, hnow⟩ | ⟨hfront, hstart⟩ | ⟨hfront, hstart⟩
  · exact .inl ⟨rfl, rfl⟩
  · obtain ⟨fault', hall, -⟩ := error_read_within htail hfront fun hover => by
      rcases flush with _ | _
      · simp [hnow rfl] at hover
      · rfl
    simp [hread] at hall
  · exact .inr (.inl ⟨_, rfl, same hfront ▸ hstart⟩)
  · exact .inr (.inr ⟨_, _, rfl, rfl, same hfront ▸ hstart⟩)

/-- What a call makes of the header: it leaves it where it is, or reads it, or has no room for the
histories. -/
inductive MeetsHeader [Memory] (failLevel : Level) (info : StreamInfo) (offered : Option Bytes)
    (rest : Bytes) : Decoder × Except Fault Output → Prop
  | waits {d' : Decoder} {out : Output} (h : d'.HeadedBy failLevel info
      ((offered.getD []).drop out.consumed ++ rest)) (hstatus : out.status = .needMoreInput) :
      MeetsHeader failLevel info offered rest (d', .ok out)
  | reads {d' : Decoder} {out : Output} {s : Stream} (hinfo : d'.info? = some info)
      (hstart : Stream.start info = .ok s) : MeetsHeader failLevel info offered rest (d', .ok out)
  | fails {d' : Decoder} {fault : Fault} (hstart : Stream.start info = .error fault) :
      MeetsHeader failLevel info offered rest (d', .error fault)

/-- **The header is met before anything behind it.** -/
theorem HeadedBy.meetsHeader [Memory] (h : d.HeadedBy failLevel info (offered.getD [] ++ rest))
    (hd : d.Ready [offered.getD [] ++ rest]) (hrest : offered = none → rest = []) :
    MeetsHeader failLevel info offered rest (d.decode offered).value := by
  obtain ⟨hc, rfl, hstream, hread⟩ := h
  have hs := hd.sound
  have hheld := hd.room
  have hs' := d.sound_filled hs offered
  have hwithin : ∃ r, (StreamInfo.read d.failLevel (BitReader.within
      ⟨d.input.bitOffset, (d.filled offered).unread⟩ 0
      (Bits.ofBytes ((offered.getD []).drop (d.taken offered) ++ rest)))).outcome =
        .ok (info, r) := by
    rwa [BitReader.within, ← unread_filled hs]
  have htail (hflush : offered.isNone = true) :
      Bits.ofBytes ((offered.getD []).drop (d.taken offered) ++ rest) = [] := by
    obtain rfl := Option.isNone_iff_eq_none.1 hflush
    simp [hrest rfl]
  have hcalls := calls_decode (fun _ => hs.bitOffset_le) offered
  generalize (d.decode offered).value = answer at hcalls
  rcases hcalls with hc' | hc' | _ | ⟨-, -, hruns⟩ | ⟨-, -, hruns⟩ | ⟨-, hdenied⟩
  · simp [hc] at hc'
  · simp [hc] at hc'
  · exact .waits ⟨hc, rfl, hstream, hwithin⟩ rfl
  · rcases hruns with _ | @⟨stream, r₁, n, k, p, hover, hn, hconsume⟩ | ⟨hover, -, -, hending⟩
    · have hheads := (heads_filled hstream hover).of_read htail hwithin
      rcases hheads with ⟨rfl, h⟩ | ⟨fault, h, -⟩ | ⟨s, r', -, h, -⟩
      · obtain ⟨hleaves, -⟩ := PendingInput.leaves_consume hs' hn hconsume
        have hn := hn.available_eq
        rw [(Prod.mk.inj (Except.ok.inj h)).2] at hn
        obtain rfl : n = 0 := Nat.add_eq_left.1 hn
        refine .waits ⟨hc, rfl, rfl, ?_⟩ rfl
        rwa [PendingInput.unread_grow, hleaves.unread]
      · simp at h
      · simp at h
    · have hheads := (heads_filled hstream hover).of_read htail hwithin
      rcases hheads with ⟨-, h⟩ | ⟨fault, h, -⟩ | ⟨s, r', rfl, -, hstart⟩
      · exact absurd (Prod.mk.inj (Except.ok.inj h)).1 hending
      · simp at h
      · exact .reads (by simp [info?, Stream.eq_of_start hstart]) hstart
  · rcases hruns with ⟨hover⟩
    have hheads := (heads_filled hstream hover).of_read htail hwithin
    rcases hheads with ⟨-, h⟩ | ⟨fault, h, hstart⟩ | ⟨s, r', -, h, -⟩
    · simp at h
    · obtain rfl := Except.error.inj h
      have hover : ¬Fault.isOverread _ = true := Bool.eq_false_iff.1
        (Stream.raises_start (P := fun fault => fault.isOverread = false) (fun _ _ => rfl) info _
          hstart)
      rw [Fault.reported, if_neg hover]
      exact .fails hstart
    · simp at h
  · simp [hheld] at hdenied

end Decoder

namespace Report

/-- An inspection of the header ends where the header does. -/
theorem upholds_headerOnly [Memory] (failLevel : Level) (info : StreamInfo) :
    (listener true).Upholds (fun d _ rest => d.HeadedBy failLevel info rest)
      fun d _ outcome => match Stream.start info with
        | .ok _ => d.info? = some info ∧ outcome = .ok ()
        | .error fault => outcome = .error (.stream fault) where
  fails := by
    rintro d d' totals offered rest fault h hd hrest hcall
    have hmeets := h.meetsHeader hd hrest
    rw [hcall] at hmeets
    rcases hmeets with _ | _ | hstart
    rw [hstart]
    rfl
  hears := by
    rintro d d' totals offered rest out h hd hrest hcall
    have hmeets := h.meetsHeader hd hrest
    rw [hcall] at hmeets
    rcases hmeets with ⟨h', -⟩ | ⟨hinfo, hstart⟩ | _
    · have hinfo : d'.info? = none := by simp [Decoder.info?, h'.unparsed]
      simpa [listener, hinfo, Listener.Heard] using h'
    · simp [listener, hinfo, Listener.Heard, hstart]
  ends := by
    rintro d totals rest h hc
    simp [h.active] at hc

/-- The parameters and the totals, without the length of the input. -/
def fields (report : Report) : StreamInfo × Option Totals :=
  (report.info, report.totals)

/-- **An inspection of the header** depends on nothing but the header. -/
theorem report_of_header [Memory] {r : Reader} (hr : r.Reliable)
    (hheld : PendingInput.CanHold r.rest.length) {failLevel : Level} {header : List Bool}
    (hheader : header <+: Bits.ofBytes r.rest) {info : StreamInfo} {r' : BitReader}
    (hread : (StreamInfo.read failLevel ⟨0, header⟩).outcome = .ok (info, r')) {size : Nat}
    (hbuffer : Memory.allocate (max 1 size) = .ok ()) :
    ∃ headed, (ofReader true r size failLevel).value = .ok headed ∧
      headed.map (Option.map fields) =
        ((Stream.start info).mapError Failure.stream).map fun _ => some (info, none) := by
  have hready : (Decoder.ofLevel failLevel).Ready [r.rest] :=
    Decoder.ready_start _ failLevel (by simpa using hheld)
  have hheaded : (Decoder.ofLevel failLevel).HeadedBy failLevel info r.rest := by
    obtain ⟨tail, htail⟩ := hheader
    obtain ⟨n, -, hok⟩ := (StreamInfo.selfDelimiting_read failLevel).ok hread
    refine ⟨rfl, rfl, rfl, r'.within (0 + n) tail, ?_⟩
    rw [← htail]
    exact hok 0 tail
  obtain ⟨intake, outcome, htaken, hends⟩ :=
    (upholds_headerOnly failLevel info).takeIn hbuffer hr _ ⟨0, 0⟩ hheaded hready
  rw [ofReader, Logged.value_bind, htaken]
  rcases hstart : Stream.start info with fault | s
  · rw [hstart] at hends
    dsimp only at hends
    subst hends
    exact ⟨_, rfl, rfl⟩
  · rw [hstart] at hends
    obtain ⟨hinfo, rfl⟩ := hends
    exact ⟨_, rfl, by simp [hinfo, Except.map, fields]⟩

/-- An inspection that has a buffer for the chunks comes to an end. -/
theorem exists_value_ofReader [Memory] (headerOnly : Bool) (r : Reader) {size : Nat}
    (hbuffer : Memory.allocate (max 1 size) = .ok ()) (failLevel : Level) :
    ∃ inspected, (ofReader headerOnly r size failLevel).value = .ok inspected := by
  obtain ⟨⟨intake, outcome⟩, htaken⟩ : ∃ taken, ((Decoder.ofLevel failLevel).takeIn
      (listener headerOnly) size r ⟨0, 0⟩).value = .ok taken :=
    ⟨_, Decoder.value_takeIn hbuffer⟩
  rw [ofReader, Logged.value_bind, htaken]
  cases outcome <;> exact ⟨_, rfl⟩

/-! ## Both -/

/-- The report on a header says what the header says, unless there is no room for the histories. -/
def TellsHeader [Memory] (failLevel : Level) (bytes : Bytes)
    (headed : Except Failure (Option Report)) : Prop :=
  ∀ header info rest, header <+: Bits.ofBytes bytes →
    (StreamInfo.read failLevel ⟨0, header⟩).outcome = .ok (info, rest) →
      headed.map (Option.map fields) =
        ((Stream.start info).mapError Failure.stream).map fun _ => some (info, none)

/-- What an inspection of a whole source, an inspection of its header and a worker make of it. -/
structure Agree [Memory] (failLevel : Level) (bytes : Bytes)
    (inspected headed : Except Failure (Option Report)) (delivery : Delivery) : Prop where
  /-- The inspection goes well if and only if the worker delivers everything. -/
  complete_iff : (∃ report, inspected = .ok report) ↔ delivery.ending = .complete
  /-- If not, both fail for the same reason, up to what a fault says about the buffered input. -/
  fails : ∀ e, inspected = .error e →
    ∃ e', delivery.ending = .failed e' ∧ e'.unplaced = e.unplaced
  /-- If it goes well, the worker has delivered the parameters that the report names, and as many
  frames and samples as it counts. -/
  delivers : ∀ report, inspected = .ok report → ∃ (report' : Report) (frames : List Frame),
    report = some report' ∧ delivery.events = .info report'.info :: frames.map .frame ∧
      report'.totals = some ⟨frames.length, (frames.map Frame.blockSize).sum⟩
  /-- The report on the header depends on nothing but the header. -/
  tellsHeader : TellsHeader failLevel bytes headed
  /-- If the inspection of the whole source goes well, the one of the header names the same
  parameters. -/
  headed_eq : ∀ report, inspected = .ok (some report) →
    headed.map (Option.map fields) = .ok (some (report.info, none))

section

variable [Memory] {failLevel : Level} {bytes : Bytes} {headed : Except Failure (Option Report)}

theorem tellsHeader_of_reader {r : Reader} (hr : r.Reliable)
    (hheld : PendingInput.CanHold r.rest.length) {size : Nat}
    (hbuffer : Memory.allocate (max 1 size) = .ok ())
    (hvalue : (ofReader true r size failLevel).value = .ok headed) :
    TellsHeader failLevel r.rest headed := by
  intro header info rest hheader hread
  obtain ⟨headed', hvalue', hfields⟩ := report_of_header hr hheld hheader hread hbuffer
  obtain rfl := Except.ok.inj (hvalue.symm.trans hvalue')
  exact hfields

/-- There is no header in nothing. -/
theorem tellsHeader_nil : TellsHeader failLevel [] headed := by
  intro header info rest hheader hread
  obtain rfl := List.prefix_nil.1 hheader
  exact absurd hread (StreamInfo.not_read_nil failLevel)

theorem agree_of_failed (h : TellsHeader failLevel bytes headed) {e e' : Failure}
    (he : e'.unplaced = e.unplaced) (events : List Event) :
    Agree failLevel bytes (.error e) headed ⟨events, .failed e'⟩ where
  complete_iff := by simp
  fails := by
    rintro _ ⟨⟩
    exact ⟨e', rfl, he⟩
  delivers := nofun
  tellsHeader := h
  headed_eq := nofun

theorem agree_of_complete (h : TellsHeader failLevel bytes headed) {info : StreamInfo}
    {rest : BitReader} {s : Stream}
    (hread : (StreamInfo.read failLevel ⟨0, Bits.ofBytes bytes⟩).outcome = .ok (info, rest))
    (hstart : Stream.start info = .ok s) (inputBytes : Nat) (frames : List Frame) :
    Agree failLevel bytes (.ok (some ⟨info, inputBytes, some (totalsOf frames)⟩)) headed
      ⟨Event.ofStream (some info) frames, .complete⟩ where
  complete_iff := by simp
  fails := nofun
  delivers := by
    rintro _ ⟨⟩
    exact ⟨_, frames, rfl, rfl, rfl⟩
  tellsHeader := h
  headed_eq := by
    rintro _ ⟨⟩
    rw [h _ info rest (List.prefix_refl _) hread, hstart]
    rfl

end

/-- **Inspecting a stream and decoding it agree**, in chunks of any sizes that there are buffers
for, however much each read gives. -/
theorem report_agrees [Memory] {source : Source}
    (hheld : PendingInput.CanHold source.bytes.length) {r r' r'' : Reader} (hr : source.Opens r)
    (hr' : source.Opens r') (hr'' : source.Opens r'') (failLevel : Level) {size size' size'' : Nat}
    (hsize : Memory.allocate (max 1 size) = .ok ())
    (hsize' : Memory.allocate (max 1 size') = .ok ())
    (hsize'' : Memory.allocate (max 1 size'') = .ok ()) :
    ∃ inspected headed, (ofReader false r size failLevel).value = .ok inspected ∧
      (ofReader true r'' size'' failLevel).value = .ok headed ∧
      Agree failLevel source.bytes inspected headed
        (Delivery.ofSource true (.ok r') size' (.ofLevel failLevel)).value := by
  obtain ⟨headed, hheaded⟩ := exists_value_ofReader true r'' hsize'' failLevel
  rcases hfault : source.fault? with _ | fault
  · obtain ⟨t, ht, hinspected⟩ :=
      report_of_reader (hr.reliable hfault) (hr.rest_eq ▸ hheld) failLevel hsize
    obtain ⟨t', ht', hdelivery⟩ :=
      Delivery.delivery_of_reader (hr'.reliable hfault) (hr'.rest_eq ▸ hheld) failLevel hsize'
    have htells := tellsHeader_of_reader (hr''.reliable hfault) (hr''.rest_eq ▸ hheld) hsize''
      hheaded
    rw [hr.rest_eq] at ht hinspected
    rw [hr'.rest_eq] at ht'
    rw [hr''.rest_eq] at htells
    obtain ⟨hframes, -, houtcome⟩ := Playback.transcript_inj.1 (ht'.trans ht.symm)
    rw [hdelivery, Delivery.ofPlayback]
    rcases ho : t.outcome with fault | _ <;> rcases ho' : t'.outcome with fault' | _ <;>
      simp only [ho, ho', mapError_error, mapError_ok, Except.error.injEq, reduceCtorEq]
        at houtcome hinspected
    · have hsame : (Failure.stream fault').unplaced = (Failure.stream fault).unplaced :=
        congrArg Failure.stream houtcome
      exact ⟨_, headed, hinspected, hheaded, agree_of_failed htells hsame _⟩
    · obtain ⟨info, rest, s, inputBytes, hread, hstart, -, hvalue⟩ := hinspected
      rw [Playback.info?_of_transcript ht' hread hstart, hframes]
      exact ⟨_, headed, hvalue, hheaded, agree_of_complete htells hread hstart inputBytes t.frames⟩
  · rw [Delivery.delivery_of_fault (hr'.fault?_eq.trans hfault) hsize',
      Source.bytes_of_fault hfault]
    exact ⟨_, headed, value_ofReader_of_fault false (hr.fault?_eq.trans hfault) hsize failLevel,
      hheaded, agree_of_failed tellsHeader_nil rfl []⟩

open scoped Memory in
/-- The whole of a stream in chunks of five bytes and of seven, its header in chunks of three; the
reads give less than they are asked for in each of the runs. -/
theorem report_agrees_lastBits :
    ∃ r r' r'' inspected headed report,
      (Source.file lastBitsQuit).open [.gives 4 2, .interrupted] = .ok r ∧
      (Source.file lastBitsQuit).open [.gives 0 0, .gives 40 1] = .ok r' ∧
      (Source.file lastBitsQuit).open [.interrupted, .gives 2 9] = .ok r'' ∧
      (ofReader false r 5 .warn).value = .ok inspected ∧ inspected = .ok (some report) ∧
      (Delivery.ofSource true (.ok r') 7 (.ofLevel .warn)).value.ending = .complete ∧
      (ofReader true r'' 3 .warn).value = .ok headed ∧
      headed.map (Option.map fields) = .ok (some (report.info, none)) := by
  have hheld : PendingInput.CanHold (Source.file lastBitsQuit).bytes.length :=
    ⟨by decide, fun _ _ => rfl⟩
  have hr : (Source.file lastBitsQuit).Opens _ := ⟨[.gives 4 2, .interrupted], by simp, rfl⟩
  have hr' : (Source.file lastBitsQuit).Opens _ := ⟨[.gives 0 0, .gives 40 1], by simp, rfl⟩
  have hr'' : (Source.file lastBitsQuit).Opens _ := ⟨[.interrupted, .gives 2 9], by simp, rfl⟩
  have hsize : Memory.allocate (max 1 5) = .ok () := rfl
  have hsize' : Memory.allocate (max 1 7) = .ok () := rfl
  have hsize'' : Memory.allocate (max 1 3) = .ok () := rfl
  obtain ⟨inspected, headed, hinspected, hheaded, hagree⟩ :=
    report_agrees hheld hr hr' hr'' .warn hsize hsize' hsize''
  obtain ⟨report, rfl⟩ := hagree.complete_iff.2 (by decide +kernel)
  obtain ⟨report', -, rfl, -⟩ := hagree.delivers report rfl
  exact ⟨_, _, _, _, headed, report', rfl, rfl, rfl, hinspected, rfl,
    hagree.complete_iff.1 ⟨_, rfl⟩, hheaded, hagree.headed_eq report' rfl⟩

open scoped Memory in
/-- A worker that is to hold chunks of 2^63 bytes breaks down, over a stream that can be inspected
without a failure. -/
theorem report_without_delivery :
    ∃ r, (Source.file stereoStream).open [] = .ok r ∧
      ¬((∃ report, (ofReader false r 5 .warn).value = .ok (.ok report)) ↔
        (Delivery.ofSource true (.ok r) (2 ^ 63) (.ofLevel .warn)).value.ending = .complete) := by
  refine ⟨_, rfl, fun h => ?_⟩
  have hsize : Memory.allocate (max 1 5) = .ok () := rfl
  obtain ⟨inspected, hvalue⟩ := exists_value_ofReader false
    ⟨false, some stereoStream.length, none, [], [], stereoStream, 0⟩ hsize .warn
  have hsome : ((ofReader false ⟨false, some stereoStream.length, none, [], [],
      stereoStream, 0⟩ 5 .warn).value.toOption.bind Except.toOption).isSome = true := by
    decide +kernel
  rw [hvalue] at h hsome
  rcases inspected with e | report
  · simp [Except.toOption] at hsome
  · have hcomplete := h.1 ⟨report, rfl⟩
    rw [Delivery.delivery_of_breakdown rfl] at hcomplete
    simp at hcomplete

end Report

end LosslessAudio
