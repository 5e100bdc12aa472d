import LosslessAudio.Proofs.Progress

/-!
# Streams that are cut short or go on

A stream may be cut short anywhere, and there may be anything behind its end.  The end of the input
is met by branches of their own, which look at fewer bits than a command has or at a command that
is not complete; this file says that they do not contradict what the other branches make of the
same bits with more behind them.

* `Stream.Quits` — the quit command lies ahead, and can be reached.  More bits behind it change
  nothing (`Quits.transcript_append`).
* `Transcript.Extends` — what the transcript of a stream that was cut short says of the whole
  stream: its frames come first, and what was refused before the input ran out stays refused.
* `EndsWithQuit` — a run over pieces reads the quit command.
* `plays_append` — all this for runs of the decoder.
-/

set_option autoImplicit false

namespace LosslessAudio

/-! ## The quit command -/

namespace Stream

/-- The commands ahead lead up to a quit command, the input being complete.  A quit command is
shorter than what other commands are looked for in, so it may stand in the last bits. -/
inductive Quits [Memory] : Stream → BitReader → Prop
  | now {s s' : Stream} {r r' : BitReader} (h : s.next? r = some ((.quit, s'), r')) : s.Quits r
  | tail {s : Stream} {r r' : BitReader} (hshort : r.available < Command.minimalBits)
      (h : Command.read r = .ok (.quit, r')) : s.Quits r
  | behind {s s' : Stream} {e : Command.Effect} {r r' : BitReader}
      (h : s.next? r = some ((e, s'), r')) (h' : s'.Quits r') : s.Quits r

/-- A pass over `r` carries out a quit command; `flush` says that the input is complete. -/
inductive ReadsQuit [Memory] (flush : Bool) : Stream → BitReader → Prop
  | now {s s' : Stream} {r r' : BitReader} (h : s.next? r = some ((.quit, s'), r')) :
      ReadsQuit flush s r
  | tail {s : Stream} {r r' : BitReader} (hflush : flush = true)
      (hshort : r.available < Command.minimalBits) (h : Command.read r = .ok (.quit, r')) :
      ReadsQuit flush s r
  | behind {s s' : Stream} {r r' : BitReader} (h : s.next? r = some ((.silent, s'), r'))
      (h' : ReadsQuit flush s' r') : ReadsQuit flush s r

theorem ReadsQuit.quits [Memory] {flush : Bool} {s : Stream} {r : BitReader}
    (h : ReadsQuit flush s r) :
    s.Quits r := by
  induction h with
  | now h => exact .now h
  | tail _ hshort h => exact .tail hshort h
  | behind h _ ih => exact .behind h ih

/-- A quit command that was read is the next command, where there is room to look for one. -/
theorem next?_of_read_quit [Memory] {s : Stream} {r r' : BitReader}
    (hlen : Command.minimalBits ≤ r.available)
    (h : Command.read r = .ok (.quit, r')) : s.next? r = some ((.quit, s), r') :=
  next?_eq_some.2 ⟨hlen, carryOut_eq_ok.2 ⟨.quit, r', h, s.outcome_execute_quit r'⟩⟩

/-- More bits, or another place, do not hide a quit command. -/
theorem Quits.within [Memory] {s : Stream} {r : BitReader} (h : s.Quits r) (p : Nat)
    (tail : List Bool) :
    s.Quits (r.within p tail) := by
  induction h generalizing p with
  | now h =>
    obtain ⟨n, -, -, hok⟩ := next?_within h
    exact .now (hok p tail)
  | tail hshort h =>
    obtain ⟨n, -, hok⟩ := selfDelimiting_command.ok h
    rcases Nat.lt_or_ge (BitReader.available (.within _ p tail)) Command.minimalBits with hlt | hge
    · exact .tail hlt (hok p tail)
    · exact .now (next?_of_read_quit hge (hok p tail))
  | behind h _ ih =>
    obtain ⟨n, -, -, hok⟩ := next?_within h
    exact .behind (hok p tail) (ih (p + n))

/-- **Nothing behind a quit command is looked at.** -/
theorem Quits.transcript_append [Memory] {s : Stream} {r : BitReader} (h : s.Quits r)
    (failLevel : Level) :
    ∃ s' frames, ∀ tail, s.transcript failLevel (r.rest ++ tail) =
      (Transcript.ended (some s')).after frames := by
  induction h with
  | @now s s' r r' h => exact ⟨s', [], fun tail => transcript_of_next? h failLevel tail⟩
  | @tail s r r' hshort h =>
    refine ⟨s, [], fun tail => ?_⟩
    obtain ⟨n, -, hok⟩ := selfDelimiting_command.ok h
    have hread := hok 0 tail
    rcases Nat.lt_or_ge (r.within 0 tail).available Command.minimalBits with hlt | hge
    · -- still too few bits for any other command
      have hstuck : s.next? (r.within 0 tail) = none := if_pos hlt
      rw [transcript, ← BitReader.rest_within r 0 tail]
      show (s.playOut failLevel (r.within 0 tail)).unplaced = _
      rw [playOut_of_stuck hstuck, ending_eq hstuck, if_pos hlt, hread]
      rfl
    · have hnext := transcript_of_next? (next?_of_read_quit (s := s) hge hread) failLevel []
      rwa [List.append_nil] at hnext
  | @behind s s' e r r' h h' ih =>
    obtain ⟨s'', frames, ih⟩ := ih
    by_cases he : e = .quit
    · exact ⟨s', [], fun tail => by rw [transcript_of_next? h, if_pos he]; rfl⟩
    · refine ⟨s'', e.frames ++ frames, fun tail => ?_⟩
      rw [transcript_of_next? h, if_neg he, ih]
      simp [Transcript.after]

end Stream

/-! ## Transcripts -/

/-- The input ended where the stream had not. -/
def Fault.isCutShort : Fault → Bool
  | .storage (.truncated _) | .missingQuit _ => true
  | _ => false

namespace Transcript

/-- What `t`, the transcript of the front of a stream, says of the transcript `t'` of all of it. -/
structure Extends (t t' : Transcript) : Prop where
  frames : t.frames <+: t'.frames
  /-- What is refused before the input runs out stays refused. -/
  refused : ∀ {fault}, t.outcome = .error fault → fault.isCutShort = false → t' = t

theorem Extends.refl (t : Transcript) : t.Extends t :=
  ⟨List.prefix_refl _, fun _ _ => rfl⟩

theorem Extends.after {t t' : Transcript} (h : t.Extends t') (frames : List Frame) :
    (t.after frames).Extends (t'.after frames) where
  frames := (List.prefix_append_right_inj frames).2 h.frames
  refused hfault hcut := congrArg (Transcript.after · frames) (h.refused hfault hcut)

/-- A stream that was cut short says nothing of what follows. -/
theorem extends_of_cutShort {stream : Option Stream} {outcome : Except Fault Unit}
    (h : ∀ fault, outcome = .error fault → fault.isCutShort = true) (t' : Transcript) :
    Extends ⟨[], stream, outcome⟩ t' where
  frames := List.nil_prefix
  refused hfault hcut := by
    rw [h _ hfault] at hcut
    cases hcut

theorem extends_of_overread {fault : Fault} (h : fault.isOverread = true)
    (stream : Option Stream) (t' : Transcript) : (failed stream fault).unplaced.Extends t' := by
  rw [unplaced_failed, Fault.reported, if_pos h]
  exact extends_of_cutShort (by rintro _ ⟨⟩; rfl) t'

end Transcript

namespace Stream

theorem extends_withoutQuit (s : Stream) (failLevel : Level) (available : Nat) (t' : Transcript) :
    (s.withoutQuit failLevel available).unplaced.Extends t' := by
  rw [withoutQuit]
  split
  · exact Transcript.extends_of_cutShort (by rintro _ ⟨⟩; rfl) t'
  · exact Transcript.extends_of_cutShort (by rintro _ ⟨⟩) t'

/-- Where there is no command that can be carried out, more bits may give one, unless what is there
is refused or is a quit command in the last bits. -/
theorem extends_of_stuck [Memory] {s : Stream} {r : BitReader} (h : s.next? r = none)
    (failLevel : Level) (tail : List Bool) :
    (s.transcript failLevel r.rest).Extends (s.transcript failLevel (r.rest ++ tail)) := by
  rw [← unplaced_playOut, playOut_of_stuck h, ending_eq h]
  by_cases hlen : r.available < Command.minimalBits
  · rw [if_pos hlen]
    split
    · exact Transcript.extends_of_cutShort (by rintro _ ⟨⟩) _
    · exact extends_withoutQuit s failLevel _ _
  · rw [if_neg hlen]
    have hlen := Nat.le_of_not_lt hlen
    obtain ⟨fault, hfault⟩ := exists_fault_of_stuck h hlen
    -- a command that is refused is refused with more bits behind it too
    have hrefused (hov : fault.isOverread = false) :
        (Transcript.failed (some s) fault).unplaced.Extends
          (s.transcript failLevel (r.rest ++ tail)) := by
      rw [transcript_of_fault hlen hfault hov]
      exact .refl _
    rw [hfault]
    rcases carryOut_eq_error.1 hfault with hread | ⟨c, r₁, hread, -⟩
    · rw [hread]
      dsimp only
      split
      · exact extends_withoutQuit s failLevel _ _
      · exact hrefused (Bool.eq_false_iff.2 ‹_›)
    · rw [hread]
      by_cases hov : fault.isOverread = true
      · exact Transcript.extends_of_overread hov _ _
      · exact hrefused (Bool.eq_false_iff.2 hov)

/-- **What lies in the front of a stream lies in all of it.** -/
theorem transcript_extends [Memory] (s : Stream) (failLevel : Level) (r : BitReader)
    (tail : List Bool) :
    (s.transcript failLevel r.rest).Extends (s.transcript failLevel (r.rest ++ tail)) := by
  cases h : s.next? r with
  | none => exact extends_of_stuck h failLevel tail
  | some x =>
    obtain ⟨⟨e, s'⟩, r'⟩ := x
    have hfront := transcript_of_next? h failLevel []
    rw [List.append_nil, List.append_nil] at hfront
    rw [hfront, transcript_of_next? h]
    have := available_lt_of_next? h
    split
    · exact .refl _
    · exact (transcript_extends s' failLevel r' tail).after e.frames
termination_by r.available

end Stream

namespace Transcript

/-- A quit command lies ahead, behind the header if that was not read yet. -/
def QuitsAhead [Memory] (failLevel : Level) (stream : Option Stream) (bits : List Bool) : Prop :=
  match stream with
  | some s => s.Quits ⟨0, bits⟩
  | none => ∃ info r s, (StreamInfo.read failLevel ⟨0, bits⟩).outcome = .ok (info, r) ∧
      Stream.start info = .ok s ∧ s.Quits r

/-- What lies in the front of a stream lies in all of it, its header included. -/
theorem ahead_extends [Memory] (failLevel : Level) (bits tail : List Bool) :
    (ahead failLevel none bits).Extends (ahead failLevel none (bits ++ tail)) := by
  rw [ahead, ahead]
  cases hread : (StreamInfo.read failLevel ⟨0, bits⟩).outcome with
  | ok x =>
    obtain ⟨info, r⟩ := x
    obtain ⟨n, -, hok⟩ := (StreamInfo.selfDelimiting_read failLevel).ok hread
    rw [show (StreamInfo.read failLevel ⟨0, bits ++ tail⟩).outcome = _ from hok 0 tail]
    dsimp only
    cases Stream.start info with
    | error fault => exact .refl _
    | ok s => exact s.transcript_extends failLevel r tail
  | error fault =>
    dsimp only
    cases hov : fault.isOverread with
    | true => exact extends_of_overread hov none _
    | false =>
      obtain ⟨fault', hread', hu⟩ :=
        (StreamInfo.selfDelimiting_read failLevel).error hread hov 0 tail
      rw [show (StreamInfo.read failLevel ⟨0, bits ++ tail⟩).outcome = _ from hread']
      dsimp only
      rw [unplaced_failed_congr (isOverread_of_unplaced_eq hu) fun _ => hu]
      exact .refl _

/-- Nothing behind a quit command is looked at. -/
theorem ahead_append_of_quits [Memory] {failLevel : Level} {bits : List Bool}
    (h : QuitsAhead failLevel none bits) :
    ∃ s frames, ∀ tail, ahead failLevel none (bits ++ tail) = (ended (some s)).after frames := by
  obtain ⟨info, r, s, hread, hstart, hquits⟩ := h
  obtain ⟨n, -, hok⟩ := (StreamInfo.selfDelimiting_read failLevel).ok hread
  obtain ⟨s', frames, htranscript⟩ := hquits.transcript_append failLevel
  refine ⟨s', frames, fun tail => ?_⟩
  rw [ahead, show (StreamInfo.read failLevel ⟨0, bits ++ tail⟩).outcome = _ from hok 0 tail]
  dsimp only
  rw [hstart]
  exact htranscript tail

end Transcript

/-! ## Runs -/

/-- A call carries out a quit command. -/
def Decoder.ReadsQuit [Memory] (d : Decoder) (offered : Option Bytes) : Prop :=
  ∃ s r, d.stream = some s ∧ d.passStart offered = some r ∧ s.ReadsQuit offered.isNone r

/-- Some call of the run over `pieces` carries out a quit command, which ends the stream. -/
inductive EndsWithQuit [Memory] : Decoder → List Bytes → Prop
  | now {d : Decoder} {pieces : List Bytes} (h : d.ReadsQuit pieces.head?) : EndsWithQuit d pieces
  | offered {d d' : Decoder} {piece : Bytes} {pieces : List Bytes} {out : Output}
      (h : (d.decode (some piece)).value = (d', .ok out))
      (h' : EndsWithQuit d' (leftover piece out.consumed pieces)) :
      EndsWithQuit d (piece :: pieces)
  | drained {d d' : Decoder} {out : Output} (h : (d.decode none).value = (d', .ok out))
      (h' : EndsWithQuit d' []) : EndsWithQuit d []

theorem EndsWithQuit.active [Memory] {d : Decoder} {pieces : List Bytes}
    (h : EndsWithQuit d pieces) : d.condition = .active := by
  induction h with
  | now h =>
    obtain ⟨s, r, -, hstart, -⟩ := h
    exact Decoder.active_of_passStart hstart
  | @offered d d' piece pieces out h _ ih | @drained d d' out h _ ih =>
    cases hc : d.condition with
    | active => rfl
    | failed =>
      rw [Decoder.value_decode_of_failed hc] at h
      cases h
    | finished =>
      rw [Decoder.value_decode_of_finished hc] at h
      cases h
      exact hc.symm.trans ih

namespace Stream

/-- A pass over commands does not lose a quit command that lies behind it. -/
theorem quits_of_runCommands [Memory] {s : Stream} {failLevel : Level} {flush : Bool}
    {r r' : BitReader}
    {ending : PassEnd} (h : (s.runCommands failLevel flush r).value.outcome = .ok (ending, r'))
    (hquit : ending ≠ .quit) {tail : List Bool}
    (hq : (s.runCommands failLevel flush r).value.stream.Quits (r'.within 0 tail)) :
    s.Quits (r.within 0 tail) := by
  cases hnext : s.next? r with
  | none =>
    cases flush with
    | true => exact absurd ((runCommands_of_stuck hnext failLevel).2 h).1 hquit
    | false =>
      by_cases hlen : r.available < Command.minimalBits
      · rw [value_runCommands_of_short hlen] at h hq
        cases h
        exact hq
      · have hlen := Nat.le_of_not_lt hlen
        obtain ⟨fault, hfault⟩ := exists_fault_of_stuck hnext hlen
        rw [value_runCommands_of_error hlen hfault, if_pos rfl] at h hq
        split at h
        · cases h
        · cases h
          rwa [if_neg ‹_›] at hq
  | some x =>
    obtain ⟨⟨e, s'⟩, r₁⟩ := x
    obtain ⟨n, -, -, hok⟩ := next?_within hnext
    have := available_lt_of_next? hnext
    rw [value_runCommands_of_next? hnext] at h hq
    refine .behind (hok 0 tail) ?_
    suffices s'.Quits (r₁.within 0 tail) by
      have hwithin := this.within (0 + n) []
      rwa [BitReader.within, BitReader.rest_within, List.append_nil] at hwithin
    cases e with
    | silent => exact quits_of_runCommands h hquit hq
    | quit =>
      cases h
      exact absurd rfl hquit
    | pause | frame f =>
      cases h
      exact hq
termination_by r.available

end Stream

namespace Decoder

open Transcript

variable {d : Decoder}

/-- So does a pass over the header. -/
theorem quitsAhead_of_passOver [Memory] {flush : Bool} {r r' : BitReader} {stream : Option Stream}
    {ending : Stream.PassEnd} (h : d.passOver flush r = (stream, .ok (ending, r')))
    (hquit : ending ≠ .quit) {tail : List Bool}
    (hq : QuitsAhead d.failLevel stream (r'.rest ++ tail)) :
    QuitsAhead d.failLevel d.stream (r.rest ++ tail) := by
  cases hd : d.stream with
  | some s =>
    rw [passOver, hd] at h
    dsimp only at h
    obtain ⟨rfl, hok⟩ := Prod.mk.inj h
    exact Stream.quits_of_runCommands hok hquit hq
  | none =>
    have hheads := heads_passOver hd flush r
    rw [h] at hheads
    cases hheads with
    | waits => exact hq
    | @parsed info r' s hread hstart =>
      obtain ⟨n, -, hok⟩ := (StreamInfo.selfDelimiting_read d.failLevel).ok hread
      have hwithin := Stream.Quits.within hq (0 + n) []
      rw [BitReader.within, List.append_nil] at hwithin
      exact ⟨info, _, s, hok 0 tail, hstart, hwithin⟩

/-- So does a call. -/
theorem quitsAhead_of_calls [Memory] (hs : d.input.Sound) {offered : Option Bytes} {d' : Decoder}
    {out : Output} (hcalls : d.Calls offered (d', .ok out)) (hc' : d'.condition = .active)
    {tail : List Bool}
    (hq : QuitsAhead d'.failLevel d'.stream (d'.input.unread ++
      (Bits.ofBytes ((offered.getD []).drop out.consumed) ++ tail))) :
    QuitsAhead d.failLevel d.stream
      (d.input.unread ++ (Bits.ofBytes (offered.getD []) ++ tail)) := by
  rw [← List.append_assoc, ← PendingInput.unread_fill hs, List.append_assoc]
  have hoffset := (PendingInput.sound_fill hs (offered.getD [])).bitOffset_le
  cases hcalls with
  | ended hc =>
    rw [hc] at hc'
    cases hc'
  | filling => exact hq
  | passed hc hready hruns =>
    cases hruns with
    | suspended hover hn hconsume =>
      obtain ⟨k, p, hconsume', hunread, -⟩ := PendingInput.consume_of_passes hoffset hn
      rw [hconsume] at hconsume'
      cases hconsume'
      rw [PendingInput.unread_grow, hunread] at hq
      exact quitsAhead_of_passOver hover (by decide) hq
    | completed hover hn hconsume hending =>
      obtain ⟨k, p, hconsume', hunread, -⟩ := PendingInput.consume_of_passes hoffset hn
      rw [hconsume] at hconsume'
      cases hconsume'
      rw [hunread] at hq
      refine quitsAhead_of_passOver hover ?_ hq
      rintro rfl
      cases hc'

/-- A call that reads the quit command had it ahead. -/
theorem quitsAhead_of_readsQuit [Memory] (hs : d.input.Sound) {offered : Option Bytes}
    (h : d.ReadsQuit offered) (tail : List Bool) : QuitsAhead d.failLevel d.stream
      (d.input.unread ++ (Bits.ofBytes (offered.getD []) ++ tail)) := by
  obtain ⟨s, r, hstream, hstart, hquit⟩ := h
  obtain rfl := eq_resume_of_passStart hs.bitOffset_le hstart
  rw [← List.append_assoc, ← PendingInput.unread_fill hs, List.append_assoc, hstream]
  exact hquit.quits.within 0 _

end Decoder

/-- **A quit command that a run reads lies ahead of it.** -/
theorem quitsAhead_of_endsWithQuit [Memory] {d : Decoder} {pieces : List Bytes}
    (h : EndsWithQuit d pieces) (hd : d.Ready pieces) : Transcript.QuitsAhead d.failLevel d.stream
      (d.input.unread ++ Bits.ofBytes pieces.flatten) := by
  have hcalls {d : Decoder} (hs : d.input.Sound) (offered : Option Bytes) :=
    d.calls_decode (fun _ => hs.bitOffset_le) offered
  induction h with
  | @now d pieces h =>
    have hahead := Decoder.quitsAhead_of_readsQuit hd.sound h (Bits.ofBytes pieces.tail.flatten)
    rw [← Bits.ofBytes_append] at hahead
    cases pieces <;> exact hahead
  | @offered d d' piece pieces out h h' ih =>
    have hcall := hcalls hd.sound (some piece)
    rw [h] at hcall
    have hrest := ih (hd.next h h'.active)
    rw [flatten_leftover, Bits.ofBytes_append] at hrest
    have hahead := Decoder.quitsAhead_of_calls hd.sound hcall h'.active hrest
    rwa [Option.getD_some, ← Bits.ofBytes_append] at hahead
  | @drained d d' out h h' ih =>
    have hcall := hcalls hd.sound none
    rw [h] at hcall
    refine Decoder.quitsAhead_of_calls hd.sound hcall h'.active ?_
    rw [Option.getD_none, List.drop_nil]
    exact ih (hd.drained h h'.active)

namespace Playback

variable {t : Playback}

theorem outcome_of_isOk (h : t.transcript.outcome.isOk = true) : t.outcome = .ok () := by
  rcases houtcome : t.outcome with fault | _
  · simp [transcript, Transcript.unplaced, houtcome, Except.isOk, Except.toBool] at h
  · rfl

theorem transcript_outcome_of_error {fault : Fault} (h : t.outcome = .error fault) :
    t.transcript.outcome = .error fault.unplaced := by
  simp [transcript, Transcript.unplaced, h]

theorem outcome_of_transcript_eq_error {fault : Fault} (h : t.transcript.outcome = .error fault) :
    ∃ fault', t.outcome = .error fault' ∧ fault'.unplaced = fault := by
  rcases houtcome : t.outcome with fault' | _
  · simpa [transcript, Transcript.unplaced, houtcome] using h
  · simp [transcript, Transcript.unplaced, houtcome] at h

end Playback

theorem Fault.isCutShort_unplaced {fault : Fault}
    (htruncated : ∀ n, fault ≠ .storage (.truncated n))
    (hmissing : ∀ n, fault ≠ .missingQuit n) : fault.unplaced.isCutShort = false := by
  rcases fault with _ | _ | _ | _ | cause | n | _
  case storage => rcases cause with n | _ <;> simp_all [unplaced, isCutShort]
  case missingQuit => exact absurd rfl (hmissing n)
  all_goals rfl

/-! ## Streams that must end with the quit command -/

namespace Stream

/-- Where a missing quit command is a failure, a pass that ends the stream reads one. -/
theorem readsQuit_of_runCommands [Memory] {s : Stream} {failLevel : Level}
    (hlevel : Level.warn ≤ failLevel) {flush : Bool} {r r' : BitReader}
    (h : (s.runCommands failLevel flush r).value.outcome = .ok (.quit, r')) :
    s.ReadsQuit flush r := by
  have missing {n : Nat} {r r' : BitReader} :
      (s.endWithoutQuit failLevel n r).value.outcome ≠ .ok (.quit, r') := by
    simp [value_endWithoutQuit, hlevel]
  rcases hnext : s.next? r with _ | ⟨⟨e, s'⟩, r₁⟩
  · by_cases hlen : r.available < Command.minimalBits
    · rw [value_runCommands_of_short hlen] at h
      split at h
      · rw [endInTail] at h
        split at h
        · exact .tail ‹_› hlen ‹_›
        · exact absurd h missing
      · simp at h
    · have hlen := Nat.le_of_not_lt hlen
      obtain ⟨fault, hfault⟩ := exists_fault_of_stuck hnext hlen
      rw [value_runCommands_of_error hlen hfault] at h
      split at h
      · simp at h
      split at h
      · simp at h
      split at h
      · exact absurd h missing
      · simp at h
  · have := available_lt_of_next? hnext
    rw [value_runCommands_of_next? hnext] at h
    rcases e with _ | _ | f | _
    · exact .behind hnext (readsQuit_of_runCommands hlevel h)
    · simp at h
    · simp at h
    · exact .now hnext
termination_by r.available

end Stream

namespace Decoder

variable {d d' : Decoder} {offered : Option Bytes} {out : Output}

/-- So does a call. -/
theorem readsQuit_of_calls [Memory] (hlevel : Level.warn ≤ d.failLevel) (hs : d.input.Sound)
    (hc : d.condition = .active) (h : d.Calls offered (d', .ok out))
    (hc' : d'.condition = .finished) : d.ReadsQuit offered := by
  rcases h with _ | hc | _ | ⟨-, hready, hruns, hroom⟩ | _ | _
  · exact absurd hc (by simp_all)
  · simp [hc] at hc'
  rcases hruns with _ | _ | @⟨stream, ending, r', n, k, p, hover, -⟩
  · simp [hc] at hc'
  by_cases hquit : ending = .quit
  · subst hquit
    rcases hd : d.stream with _ | s
    · rcases heads_filled hd hover
    · rw [passOver, hd] at hover
      obtain ⟨-, hok⟩ := Prod.mk.inj hover
      exact ⟨s, _, hd, passStart_of_ready hs.bitOffset_le hc hready hroom,
        Stream.readsQuit_of_runCommands hlevel hok⟩
  · simp [hquit, hc] at hc'

end Decoder

/-- **Where a missing quit command is a failure, a run that does not fail reads one.** -/
theorem endsWithQuit_of_plays [Memory] {d : Decoder} {pieces : List Bytes} {t : Playback}
    (h : Plays d pieces t) (hlevel : Level.warn ≤ d.failLevel) (hd : d.Ready pieces)
    (houtcome : t.outcome = .ok ()) : EndsWithQuit d pieces := by
  have hmoves {d : Decoder} {pieces : List Bytes} (hd : d.Ready pieces) :=
    Decoder.moves_decode hd.active hd.sound hd.fits
  have hcalls {d : Decoder} {pieces : List Bytes} (hd : d.Ready pieces) (offered : Option Bytes) :=
    d.calls_decode (fun _ => hd.sound.bitOffset_le) offered
  induction h with
  | failed h => simp at houtcome
  | @offered d d' piece pieces out t h ht ih =>
    have hmove := hmoves hd
    have hcall := hcalls hd (some piece)
    rw [List.head?_cons, h] at hmove
    rw [h] at hcall
    rcases hmove.condition hd.active with hc' | hc'
    · exact .offered h (ih (hcall.failLevel_eq ▸ hlevel) (hd.next h hc') houtcome)
    · exact .now (Decoder.readsQuit_of_calls hlevel hd.sound hd.active hcall hc')
  | @drained d d' out t h hs ht ih =>
    have hmove := hmoves hd
    have hcall := hcalls hd none
    rw [List.head?_nil, h] at hmove
    rw [h] at hcall
    rcases hmove.condition hd.active with hc' | hc'
    · exact .drained h (ih (hcall.failLevel_eq ▸ hlevel) (hd.drained h hc') houtcome)
    · exact .now (Decoder.readsQuit_of_calls hlevel hd.sound hd.active hcall hc')
  | finished h hs =>
    have hmove := hmoves hd
    rw [List.head?_nil, h] at hmove
    exact absurd hs hmove.status_ne_finished

/-- **What is cut off, or lies behind the end, does not change what comes before.**  Some bytes are
appended to a stream, and both the stream and the longer one are offered in any pieces, to decoders
with any frame size that have room for them.

* The frames of the stream are the first frames of the longer one.
* If the quit command is read in the stream, both have the same frames and the same parameters, and
  both end without a fault.
* If the stream is refused, and not because it was cut short, the longer one has the same frames
  and is refused for the same reason; only the place that a fault names may be another. -/
theorem plays_append [Memory] (frameSize frameSize' : Nat) (failLevel : Level)
    (pieces pieces' : List Bytes) (more : Bytes) (hmore : pieces'.flatten = pieces.flatten ++ more)
    (hheld : PendingInput.CanHold pieces'.flatten.length) :
    ∃ t t', Plays (.start frameSize failLevel) pieces t ∧
      Plays (.start frameSize' failLevel) pieces' t' ∧
      t.frames <+: t'.frames ∧
      (EndsWithQuit (.start frameSize failLevel) pieces →
        t.outcome = .ok () ∧ t'.frames = t.frames ∧ t'.decoder.info? = t.decoder.info? ∧
          t'.outcome = .ok ()) ∧
      ∀ fault, t.outcome = .error fault → (∀ n, fault ≠ .storage (.truncated n)) →
        (∀ n, fault ≠ .missingQuit n) →
          t'.frames = t.frames ∧ ∃ fault', t'.outcome = .error fault' ∧
            fault'.unplaced = fault.unplaced := by
  have hshorter : PendingInput.CanHold pieces.flatten.length := by
    refine hheld.mono ?_
    rw [hmore, List.length_append]
    omega
  obtain ⟨t, ht, hahead⟩ := playsOut_start frameSize failLevel hshorter
  obtain ⟨t', ht', hahead'⟩ := playsOut_start frameSize' failLevel hheld
  rw [hmore, Bits.ofBytes_append] at hahead'
  have hextends := Transcript.ahead_extends failLevel (Bits.ofBytes pieces.flatten)
    (Bits.ofBytes more)
  rw [← hahead, ← hahead'] at hextends
  refine ⟨t, t', ht, ht', hextends.frames, fun hends => ?_, fun fault hfault htrunc hmissing => ?_⟩
  · have hquits := quitsAhead_of_endsWithQuit hends
      (Decoder.ready_start frameSize failLevel hshorter)
    obtain ⟨s, frames, hahead₀⟩ := Transcript.ahead_append_of_quits hquits
    -- the transcript is the same, whatever lies behind the quit command
    have heq : t.transcript = (Transcript.ended (some s)).after frames := by
      have hahead₀ := hahead₀ []
      rw [List.append_nil] at hahead₀
      exact hahead.trans hahead₀
    have heq' : t'.transcript = (Transcript.ended (some s)).after frames :=
      hahead'.trans (hahead₀ _)
    obtain ⟨hframes, hstream, -⟩ := Playback.transcript_inj.1 (heq'.trans heq.symm)
    exact ⟨Playback.outcome_of_isOk (heq ▸ rfl), hframes,
      congrArg (Option.map Stream.info) hstream, Playback.outcome_of_isOk (heq' ▸ rfl)⟩
  · have houtcome := Playback.transcript_outcome_of_error hfault
    have heq := hextends.refused houtcome (Fault.isCutShort_unplaced htrunc hmissing)
    rw [← heq] at houtcome
    exact ⟨(Playback.transcript_inj.1 heq).1, Playback.outcome_of_transcript_eq_error houtcome⟩

/-- Bitshift commands that end four bits before the end of a byte, and a quit command. -/
def lastBitsQuit : Bytes :=
  Machine.endlessBlock.take 61 ++ [0x68, 0xD1, 0xA3, 0x44]

open scoped Memory in
/-- The quit command is read in the last four bits of the stream, or with two bytes behind it. -/
theorem plays_append_lastBits : ∃ t t', Plays (.start 64 .warn) [lastBitsQuit] t ∧
    Plays (.start 16 .warn) [lastBitsQuit, [0xFF, 0x00]] t' ∧ t.outcome = .ok () ∧
      t'.frames = t.frames ∧ t'.decoder.info? = t.decoder.info? ∧ t'.outcome = .ok () := by
  obtain ⟨t, t', ht, ht', -, hends, -⟩ := plays_append 64 16 .warn [lastBitsQuit]
    [lastBitsQuit, [0xFF, 0x00]] [0xFF, 0x00] rfl ⟨by decide, fun _ _ => rfl⟩
  have hheld : PendingInput.CanHold [lastBitsQuit].flatten.length := ⟨by decide, fun _ _ => rfl⟩
  obtain ⟨t₀, ht₀, hahead⟩ := playsOut_start 64 .warn hheld
  have hok : t₀.transcript.outcome.isOk = true := by
    rw [hahead]
    decide +kernel
  exact ⟨t, t', ht, ht', hends (endsWithQuit_of_plays ht₀ (by decide)
    (Decoder.ready_start 64 .warn hheld) (Playback.outcome_of_isOk hok))⟩

end LosslessAudio
