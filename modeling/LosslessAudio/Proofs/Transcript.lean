import LosslessAudio.Decoder
import LosslessAudio.Proofs.SelfDelimiting

/-!
# What lies in a stream

A decoder sees its input through a window that fills and empties, in passes that stop for many
reasons.  This file says what there is to be got out of the bits ahead of it if none of that is
taken into account: `Stream.playOut` carries out one command after the other on complete input,
until the stream ends.

* `Stream.next?` — the command at the reader, if all of it is there and nothing is wrong with it.
  A pass is made of such commands (`value_runCommands_of_next?`), and where there is none it ends
  (`value_runCommands_of_short`, `value_runCommands_of_error`).
* `Transcript` — the frames, the last state and how it ended.  `unplaced_playOut_within` says that
  it does not depend on where the bits stand.
* `FollowedBy` and `runCommands_followedBy` — the link between the two: whatever window a pass
  runs on, the transcript of what lay ahead of it is what the pass brought about, followed by the
  transcript of what lies ahead afterwards.
-/

set_option autoImplicit false

namespace LosslessAudio

/-! ## The next command -/

namespace Stream

/-- The command at the reader, carried out, if all of it is there and nothing is wrong with it. -/
def next? [Memory] (s : Stream) (r : BitReader) : Option ((Command.Effect × Stream) × BitReader) :=
  if r.available < Command.minimalBits then none else (s.carryOut r).toOption

theorem next?_eq_some [Memory] {s : Stream} {r : BitReader}
    {x : (Command.Effect × Stream) × BitReader} :
    s.next? r = some x ↔ Command.minimalBits ≤ r.available ∧ s.carryOut r = .ok x := by
  rw [next?]
  split
  · simp; omega
  · cases s.carryOut r <;> simp [Except.toOption]; omega

/-- Where enough bits are left and there is no next command, something is wrong with what is
there. -/
theorem exists_fault_of_stuck [Memory] {s : Stream} {r : BitReader} (h : s.next? r = none)
    (hlen : Command.minimalBits ≤ r.available) : ∃ fault, s.carryOut r = .error fault := by
  cases hx : s.carryOut r with
  | ok x =>
    rw [next?_eq_some.2 ⟨hlen, hx⟩] at h
    cases h
  | error fault => exact ⟨fault, rfl⟩

theorem carryOut_eq_ok [Memory] {s s' : Stream} {e : Command.Effect} {r r' : BitReader} :
    s.carryOut r = .ok ((e, s'), r') ↔
      ∃ c r₁, Command.read r = .ok (c, r₁) ∧ (s.execute c r₁).outcome = .ok (e, s', r') := by
  simp only [carryOut, bind_eq_ok, Prod.exists]
  constructor
  · rintro ⟨c, r₁, hc, e, s', r', he, h⟩
    cases h
    exact ⟨c, r₁, hc, he⟩
  · rintro ⟨c, r₁, hc, he⟩
    exact ⟨c, r₁, hc, e, s', r', he, rfl⟩

theorem carryOut_eq_error [Memory] {s : Stream} {fault : Fault} {r : BitReader} :
    s.carryOut r = .error fault ↔ Command.read r = .error fault ∨
      ∃ c r₁, Command.read r = .ok (c, r₁) ∧ (s.execute c r₁).outcome = .error fault := by
  simp only [carryOut, bind_eq_error, Prod.exists]
  constructor
  · rintro (h | ⟨c, r₁, hc, he | ⟨e, s', r', -, h⟩⟩)
    · exact .inl h
    · exact .inr ⟨c, r₁, hc, he⟩
    · cases h
  · rintro (h | ⟨c, r₁, hc, he⟩)
    · exact .inl h
    · exact .inr ⟨c, r₁, hc, .inl he⟩

/-- The next command lies where it lies: it is the same with other bits behind it, and it takes
some bits. -/
theorem next?_within [Memory] {s : Stream} {r r' : BitReader} {x : Command.Effect × Stream}
    (h : s.next? r = some (x, r')) : ∃ n, 0 < n ∧ r.Passes n r' ∧
      ∀ p tail, s.next? (r.within p tail) = some (x, r'.within (p + n) tail) := by
  obtain ⟨hlen, hx⟩ := next?_eq_some.1 h
  obtain ⟨n, hn, hok⟩ := s.selfDelimiting_carryOut.ok hx
  refine ⟨n, ?_, hn, fun p tail => next?_eq_some.2 ⟨?_, hok p tail⟩⟩
  · obtain ⟨c, r₁, hc, he⟩ := carryOut_eq_ok.1 hx
    obtain ⟨q, hq⟩ := Command.passes_of_read hc
    obtain ⟨m, hm⟩ := passes_of_execute he
    have hn := hn.available_eq
    have hq := hq.available_eq
    have hm := hm.available_eq
    omega
  · simp only [BitReader.available, BitReader.rest_within, List.length_append] at hlen ⊢
    omega

theorem available_lt_of_next? [Memory] {s : Stream} {r r' : BitReader} {x : Command.Effect × Stream}
    (h : s.next? r = some (x, r')) : r'.available < r.available := by
  obtain ⟨n, hpos, hn, -⟩ := next?_within h
  have := hn.available_eq
  omega

theorem next?_within_eq_none [Memory] {s : Stream} {r : BitReader} (h : s.next? r = none)
    (p : Nat) :
    s.next? (r.within p []) = none := by
  have back : (r.within p []).within r.position [] = r := by simp [BitReader.within]
  cases hx : s.next? (r.within p []) with
  | none => rfl
  | some y =>
    obtain ⟨x, r'⟩ := y
    obtain ⟨n, -, -, hok⟩ := next?_within hx
    rw [← back, hok] at h
    cases h

/-! ## Passes, one command at a time -/

/-- The records that the next command leaves, whether it can be carried out or not. -/
def remarks [Memory] (s : Stream) (r : BitReader) : List Record :=
  match Command.read r with
  | .ok (c, r) => (s.execute c r).log
  | .error _ => []

theorem runCommands_of_short [Memory] {s : Stream} {r : BitReader}
    (h : r.available < Command.minimalBits) (failLevel : Level) (flush : Bool) :
    s.runCommands failLevel flush r =
      if flush then s.endInTail failLevel r else pure ⟨s, .ok (.paused, r)⟩ := by
  have hshort : (r.rest.take Command.minimalBits).length < Command.minimalBits := by
    rw [List.length_take]; exact Nat.lt_of_le_of_lt (Nat.min_le_right _ _) h
  rw [runCommands, if_pos hshort]

theorem value_runCommands_of_short [Memory] {s : Stream} {r : BitReader}
    (h : r.available < Command.minimalBits) (failLevel : Level) (flush : Bool) :
    (s.runCommands failLevel flush r).value =
      if flush then (s.endInTail failLevel r).value else ⟨s, .ok (.paused, r)⟩ := by
  rw [runCommands_of_short h]
  split <;> rfl

theorem not_short {r : BitReader} (h : Command.minimalBits ≤ r.available) :
    ¬(r.rest.take Command.minimalBits).length < Command.minimalBits := by
  rw [List.length_take, BitReader.available] at *
  omega

/-- A pass goes on behind a command that was carried out, or ends there. -/
theorem runCommands_of_next? [Memory] {s s' : Stream} {e : Command.Effect} {r r' : BitReader}
    (h : s.next? r = some ((e, s'), r')) (failLevel : Level) (flush : Bool) :
    s.runCommands failLevel flush r =
      (⟨(), s.remarks r⟩ : Logged Unit) >>= fun _ =>
        match e with
        | .silent => s'.runCommands failLevel flush r'
        | .pause => pure ⟨s', .ok (.paused, r')⟩
        | .frame frame => pure ⟨s', .ok (.frame frame, r')⟩
        | .quit => pure ⟨s', .ok (.quit, r')⟩ := by
  obtain ⟨hlen, hx⟩ := next?_eq_some.1 h
  obtain ⟨c, r₁, hc, he⟩ := carryOut_eq_ok.1 hx
  have hremarks : s.remarks r = (s.execute c r₁).log := by rw [remarks, hc]
  rw [runCommands, if_neg (not_short hlen), hremarks]
  split
  · rename_i fault hc'
    rw [hc] at hc'
    cases hc'
  · rename_i c' r₂ hc'
    rw [hc] at hc'
    cases hc'
    refine congrArg (_ >>= ·) (funext fun _ => ?_)
    split <;> rename_i he' <;> rw [he] at he' <;> cases he' <;> rfl

theorem value_runCommands_of_next? [Memory] {s s' : Stream} {e : Command.Effect} {r r' : BitReader}
    (h : s.next? r = some ((e, s'), r')) (failLevel : Level) (flush : Bool) :
    (s.runCommands failLevel flush r).value =
      match e with
      | .silent => (s'.runCommands failLevel flush r').value
      | .pause => ⟨s', .ok (.paused, r')⟩
      | .frame frame => ⟨s', .ok (.frame frame, r')⟩
      | .quit => ⟨s', .ok (.quit, r')⟩ := by
  rw [runCommands_of_next? h, Logged.value_bind]
  cases e <;> rfl

/-- A pass ends at a command that cannot be carried out: it waits for more input, if this may help
and there may be more; it ends the stream, if the input ends within the code of a command; and else
it fails. -/
theorem runCommands_of_error [Memory] {s : Stream} {r : BitReader} {fault : Fault}
    (hlen : Command.minimalBits ≤ r.available) (h : s.carryOut r = .error fault)
    (failLevel : Level) (flush : Bool) :
    s.runCommands failLevel flush r =
      (⟨(), s.remarks r⟩ : Logged Unit) >>= fun _ =>
        if fault.isOverread = false then pure ⟨s, .error fault⟩
        else if flush = false then s.endAtFault false fault r
        else match Command.read r with
          | .error _ => s.endWithoutQuit failLevel r.available (cutOff r)
          | .ok _ => pure ⟨s, .error fault⟩ := by
  rw [runCommands, if_neg (not_short hlen)]
  rcases carryOut_eq_error.1 h with hc | ⟨c, r₁, hc, he⟩
  · have hremarks : s.remarks r = [] := by rw [remarks, hc]
    rw [hremarks]
    split
    · rename_i fault' hc'
      rw [hc] at hc'
      cases hc'
      rw [hc, endAtFault, endAtFault]
      cases fault.isOverread <;> cases flush <;> rfl
    · rename_i hc'
      rw [hc] at hc'
      cases hc'
  · have hremarks : s.remarks r = (s.execute c r₁).log := by rw [remarks, hc]
    rw [hremarks]
    split
    · rename_i hc'
      rw [hc] at hc'
      cases hc'
    · rename_i c' r₂ hc'
      rw [hc] at hc'
      cases hc'
      refine congrArg (_ >>= ·) (funext fun _ => ?_)
      split <;> rename_i he' <;> rw [he] at he' <;> cases he'
      rw [hc, endAtFault, endAtFault]
      cases fault.isOverread <;> cases flush <;> rfl

theorem value_endAtFault_of_isOverread {s : Stream} {fault : Fault} {r : BitReader}
    (h : fault.isOverread = true) :
    (s.endAtFault false fault r).value = ⟨s, .ok (.suspended, r)⟩ := by
  rw [endAtFault, h]
  rfl

theorem value_runCommands_of_error [Memory] {s : Stream} {r : BitReader} {fault : Fault}
    (hlen : Command.minimalBits ≤ r.available) (h : s.carryOut r = .error fault)
    (failLevel : Level) (flush : Bool) :
    (s.runCommands failLevel flush r).value =
      if fault.isOverread = false then ⟨s, .error fault⟩
      else if flush = false then ⟨s, .ok (.suspended, r)⟩
      else match Command.read r with
        | .error _ => (s.endWithoutQuit failLevel r.available (cutOff r)).value
        | .ok _ => ⟨s, .error fault⟩ := by
  rw [runCommands_of_error hlen h, Logged.value_bind]
  split
  · rfl
  · rename_i hover
    rw [Bool.not_eq_false] at hover
    split
    · exact value_endAtFault_of_isOverread hover
    · split <;> rfl

end Stream

/-! ## Transcripts -/

/-- A fault as the decoder reports it: where the bits ran out, the input was cut short. -/
def Fault.reported (pending : Nat) (fault : Fault) : Fault :=
  if fault.isOverread then .storage (.truncated pending) else fault

/-- The frames that a stream holds, its state at the end, and how it ended. -/
structure Transcript where
  frames : List Frame
  stream : Option Stream
  outcome : Except Fault Unit

namespace Transcript

/-- A stream that ends here. -/
def ended (stream : Option Stream) : Transcript :=
  ⟨[], stream, .ok ()⟩

/-- A stream that is refused here. -/
def failed (stream : Option Stream) (fault : Fault) : Transcript :=
  ⟨[], stream, .error (fault.reported 0)⟩

/-- The transcript with more frames in front. -/
def after (t : Transcript) (frames : List Frame) : Transcript :=
  { t with frames := frames ++ t.frames }

/-- The transcript up to the place in the buffered input that its fault names. -/
def unplaced (t : Transcript) : Transcript :=
  { t with outcome := t.outcome.mapError Fault.unplaced }

@[simp] theorem unplaced_after (t : Transcript) (frames : List Frame) :
    (t.after frames).unplaced = t.unplaced.after frames := rfl

theorem unplaced_failed (stream : Option Stream) (fault : Fault) :
    (failed stream fault).unplaced = ⟨[], stream, .error (fault.reported 0).unplaced⟩ := rfl

/-- Where the input ran out does not matter, nor where a fault was met. -/
theorem unplaced_failed_congr {stream : Option Stream} {fault fault' : Fault}
    (h : fault'.isOverread = fault.isOverread)
    (h' : fault.isOverread = false → fault'.unplaced = fault.unplaced) :
    (failed stream fault').unplaced = (failed stream fault).unplaced := by
  rw [unplaced_failed, unplaced_failed, Fault.reported, Fault.reported, h]
  cases hf : fault.isOverread with
  | true => rfl
  | false => simp [h' hf]

end Transcript

/-- The frame that a command completes, if any. -/
def Command.Effect.frames : Command.Effect → List Frame
  | .frame f => [f]
  | _ => []

/-- The frame that a pass completes, if any. -/
def Stream.PassEnd.frames : Stream.PassEnd → List Frame
  | .frame f => [f]
  | _ => []

namespace Stream

/-- The end of a stream that has `available` bits left but no further command. -/
def withoutQuit (s : Stream) (failLevel : Level) (available : Nat) : Transcript :=
  if Level.warn ≤ failLevel then .failed (some s) (.missingQuit available) else .ended (some s)

/-- The end of a stream where there is no command that can be carried out, the input being
complete. -/
def ending [Memory] (s : Stream) (failLevel : Level) (r : BitReader) : Transcript :=
  match (s.runCommands failLevel true r).value.outcome with
  | .ok _ => .ended (some s)
  | .error fault => .failed (some s) fault

/-- Everything that lies ahead of a reader, the input being complete. -/
def playOut [Memory] (s : Stream) (failLevel : Level) (r : BitReader) : Transcript :=
  match _h : s.next? r with
  | none => s.ending failLevel r
  | some ((effect, s'), r') =>
    if effect = .quit then .ended (some s') else (s'.playOut failLevel r').after effect.frames
termination_by r.available
decreasing_by exact available_lt_of_next? ‹_›

theorem playOut_of_stuck [Memory] {s : Stream} {r : BitReader} (h : s.next? r = none)
    (failLevel : Level) :
    s.playOut failLevel r = s.ending failLevel r := by
  rw [playOut]
  split
  · rfl
  · rename_i h'
    rw [h] at h'
    cases h'

theorem playOut_of_next? [Memory] {s s' : Stream} {e : Command.Effect} {r r' : BitReader}
    (h : s.next? r = some ((e, s'), r')) (failLevel : Level) :
    s.playOut failLevel r =
      if e = .quit then .ended (some s') else (s'.playOut failLevel r').after e.frames := by
  rw [playOut]
  split
  · rename_i h'
    rw [h] at h'
    cases h'
  · rename_i h'
    rw [h] at h'
    cases h'
    rfl

theorem value_endWithoutQuit (s : Stream) (failLevel : Level) (available : Nat) (r : BitReader) :
    (s.endWithoutQuit failLevel available r).value =
      ⟨s, if Level.warn ≤ failLevel then .error (.missingQuit available) else .ok (.quit, r)⟩ := by
  rw [endWithoutQuit, Checked.report]
  split <;> rfl

/-- How a stream ends where there is no command that can be carried out. -/
theorem ending_eq [Memory] {s : Stream} {r : BitReader} (h : s.next? r = none) (failLevel : Level) :
    s.ending failLevel r =
      if r.available < Command.minimalBits then
        match Command.read r with
        | .ok (.quit, _) => .ended (some s)
        | _ => s.withoutQuit failLevel r.available
      else match Command.read r, s.carryOut r with
        | .error fault, _ =>
          if fault.isOverread then s.withoutQuit failLevel r.available else .failed (some s) fault
        | .ok _, .error fault => .failed (some s) fault
        | .ok _, .ok _ => .ended (some s) := by
  have missing (r' : BitReader) :
      (match (s.endWithoutQuit failLevel r.available r').value.outcome with
        | .ok _ => Transcript.ended (some s)
        | .error fault => .failed (some s) fault) = s.withoutQuit failLevel r.available := by
    rw [value_endWithoutQuit, withoutQuit]
    by_cases hl : Level.warn ≤ failLevel
    · rw [if_pos hl, if_pos hl]
    · rw [if_neg hl, if_neg hl]
  rw [ending]
  by_cases hlen : r.available < Command.minimalBits
  · rw [if_pos hlen, value_runCommands_of_short hlen, if_pos rfl, endInTail]
    cases Command.read r with
    | error fault => exact missing r
    | ok x =>
      obtain ⟨c, r₁⟩ := x
      cases c <;> first | rfl | exact missing r
  · rw [if_neg hlen]
    have hlen := Nat.le_of_not_lt hlen
    obtain ⟨fault, hx⟩ := exists_fault_of_stuck h hlen
    rw [value_runCommands_of_error hlen hx, hx]
    rcases carryOut_eq_error.1 hx with hc | ⟨c, r₁, hc, -⟩
    · rw [hc]
      dsimp only
      cases fault.isOverread with
      | false => rfl
      | true => exact missing (cutOff r)
    · rw [hc]
      cases fault.isOverread <;> rfl

/-- The end of a stream does not depend on where the last bits stand. -/
theorem unplaced_ending_within [Memory] {s : Stream} {r : BitReader} (h : s.next? r = none)
    (failLevel : Level) (p : Nat) :
    (s.ending failLevel (r.within p [])).unplaced = (s.ending failLevel r).unplaced := by
  have havailable : (r.within p []).available = r.available := by
    simp [BitReader.available]
  rw [ending_eq h, ending_eq (next?_within_eq_none h p), havailable]
  -- the same code, or the same lack of one, at both places
  cases hc : Command.read r with
  | ok x =>
    obtain ⟨n, -, hok⟩ := selfDelimiting_command.ok hc
    rw [hok p []]
    by_cases hlen : r.available < Command.minimalBits
    · rw [if_pos hlen, if_pos hlen]
      obtain ⟨c, r₁⟩ := x
      cases c <;> rfl
    rw [if_neg hlen, if_neg hlen]
    obtain ⟨fault, hx⟩ := exists_fault_of_stuck h (Nat.le_of_not_lt hlen)
    obtain ⟨fault', hx', hf, hu⟩ := s.selfDelimiting_carryOut.error_within hx p
    rw [hx, hx']
    exact Transcript.unplaced_failed_congr hf hu
  | error fault =>
    obtain ⟨fault', hc', hf, hu⟩ := selfDelimiting_command.error_within hc p
    rw [hc']
    by_cases hlen : r.available < Command.minimalBits
    · rw [if_pos hlen, if_pos hlen]
    rw [if_neg hlen, if_neg hlen]
    dsimp only
    rw [show fault'.isOverread = fault.isOverread from hf]
    cases hov : fault.isOverread with
    | true => rfl
    | false => exact Transcript.unplaced_failed_congr hf hu

/-- **Where the bits stand does not matter.** -/
theorem unplaced_playOut_within [Memory] (s : Stream) (failLevel : Level) (r : BitReader)
    (p : Nat) :
    (s.playOut failLevel (r.within p [])).unplaced = (s.playOut failLevel r).unplaced := by
  cases h : s.next? r with
  | none =>
    rw [playOut_of_stuck h, playOut_of_stuck (next?_within_eq_none h p)]
    exact unplaced_ending_within h failLevel p
  | some x =>
    obtain ⟨⟨e, s'⟩, r'⟩ := x
    obtain ⟨n, -, -, hok⟩ := next?_within h
    rw [playOut_of_next? h, playOut_of_next? (hok p [])]
    split
    · rfl
    · have := available_lt_of_next? h
      rw [Transcript.unplaced_after, Transcript.unplaced_after,
        unplaced_playOut_within s' failLevel r' (p + n)]
termination_by r.available

/-- Everything that lies in a string of bits, the input being complete. -/
def transcript [Memory] (s : Stream) (failLevel : Level) (bits : List Bool) : Transcript :=
  (s.playOut failLevel ⟨0, bits⟩).unplaced

theorem unplaced_playOut [Memory] (s : Stream) (failLevel : Level) (r : BitReader) :
    (s.playOut failLevel r).unplaced = s.transcript failLevel r.rest := by
  have h := s.unplaced_playOut_within failLevel r 0
  rw [BitReader.within, List.append_nil] at h
  rw [transcript, h]

theorem transcript_of_next? [Memory] {s s' : Stream} {e : Command.Effect} {r r' : BitReader}
    (h : s.next? r = some ((e, s'), r')) (failLevel : Level) (tail : List Bool) :
    s.transcript failLevel (r.rest ++ tail) =
      if e = .quit then (Transcript.ended (some s')).unplaced
      else (s'.transcript failLevel (r'.rest ++ tail)).after e.frames := by
  obtain ⟨n, -, -, hok⟩ := next?_within h
  rw [transcript, show (⟨0, r.rest ++ tail⟩ : BitReader) = r.within 0 tail from rfl,
    playOut_of_next? (hok 0 tail)]
  split
  · rfl
  · rw [Transcript.unplaced_after, unplaced_playOut, BitReader.rest_within]

/-- What more bits cannot mend is refused whatever follows. -/
theorem transcript_of_fault [Memory] {s : Stream} {r : BitReader} {fault : Fault}
    (hlen : Command.minimalBits ≤ r.available) (h : s.carryOut r = .error fault)
    (hfault : fault.isOverread = false) (failLevel : Level) (tail : List Bool) :
    s.transcript failLevel (r.rest ++ tail) = (Transcript.failed (some s) fault).unplaced := by
  obtain ⟨fault', hx, hu⟩ := s.selfDelimiting_carryOut.error h hfault 0 tail
  have hov : fault'.isOverread = fault.isOverread := isOverread_of_unplaced_eq hu
  have hlen' : Command.minimalBits ≤ (r.within 0 tail).available := by
    simp only [BitReader.available, BitReader.rest_within, List.length_append] at hlen ⊢
    omega
  have hnext : s.next? (r.within 0 tail) = none := by
    rw [next?, if_neg (Nat.not_lt.2 hlen'), hx]
    rfl
  rw [transcript, show (⟨0, r.rest ++ tail⟩ : BitReader) = r.within 0 tail from rfl,
    playOut_of_stuck hnext, ending, value_runCommands_of_error hlen' hx,
    if_pos (hov.trans hfault)]
  exact Transcript.unplaced_failed_congr hov fun _ => hu

end Stream

/-! ## A pass and what lies ahead -/

/-- Everything that lies in a string of bits, the input being complete: a header and a body, or only
a body if the header was read already and led to the state `stream`. -/
def Transcript.ahead [Memory] (failLevel : Level) (stream : Option Stream) (bits : List Bool) :
    Transcript :=
  match stream with
  | some s => s.transcript failLevel bits
  | none =>
    match (StreamInfo.read failLevel ⟨0, bits⟩).outcome with
    | .error fault => (Transcript.failed none fault).unplaced
    | .ok (info, r) =>
      match Stream.start info with
      | .error fault => (Transcript.failed none fault).unplaced
      | .ok s => s.transcript failLevel r.rest

namespace Stream

/-- A pass over `r`, which has the bits `tail` behind it, turns what lay ahead into `t`: it brought
about the front of `t`, and what lies ahead afterwards is the rest.  Each field says what one of the
endings means. -/
structure FollowedBy [Memory] (stream : Option Stream)
    (outcome : Except Fault (PassEnd × BitReader))
    (failLevel : Level) (flush : Bool) (r : BitReader) (tail : List Bool) (t : Transcript) :
    Prop where
  of_error : ∀ {fault}, outcome = .error fault → t = (Transcript.failed stream fault).unplaced
  /-- A pass never leaves the bits it runs on, and moves on unless it has to wait. -/
  passes : ∀ {ending r'}, outcome = .ok (ending, r') → ∃ n, r.Passes n r' ∧
    (n = 0 → ending = .quit ∨ ending = .suspended ∨
      flush = false ∧ r.available < Command.minimalBits)
  of_quit : ∀ {r'}, outcome = .ok (.quit, r') → t = (Transcript.ended stream).unplaced
  of_ok : ∀ {ending r'}, outcome = .ok (ending, r') → ending ≠ .quit →
    t = (Transcript.ahead failLevel stream (r'.rest ++ tail)).after ending.frames
  not_suspended : ∀ {r'}, flush = true → outcome ≠ .ok (.suspended, r')

theorem passes_cutOff (r : BitReader) : ∃ n, r.Passes n (cutOff r) := by
  rw [cutOff]
  split
  · rename_i h
    exact ⟨_, BitReader.passes_of_unary h⟩
  · exact ⟨_, Nat.le_refl _, rfl⟩

theorem FollowedBy.of_passes [Memory] {stream : Option Stream}
    {outcome : Except Fault (PassEnd × BitReader)} {failLevel : Level} {flush : Bool}
    {r r' : BitReader} {tail : List Bool} {t : Transcript} {n : Nat}
    (h : FollowedBy stream outcome failLevel flush r' tail t) (hn : r.Passes n r') (hpos : 0 < n) :
    FollowedBy stream outcome failLevel flush r tail t where
  of_error := h.of_error
  passes hok := by
    obtain ⟨m, hm, -⟩ := h.passes hok
    exact ⟨n + m, hn.trans hm, fun h0 => by omega⟩
  of_quit := h.of_quit
  of_ok := h.of_ok
  not_suspended := h.not_suspended

/-- A pass that ends behind a command. -/
theorem followedBy_behind [Memory] {stream : Option Stream} {failLevel : Level} {flush : Bool}
    {r r' : BitReader} {tail : List Bool} {ending : PassEnd} {n : Nat} (hn : r.Passes n r')
    (hpos : 0 < n) (hs : ending ≠ .suspended) :
    FollowedBy stream (.ok (ending, r')) failLevel flush r tail
      (if ending = .quit then (Transcript.ended stream).unplaced
        else (Transcript.ahead failLevel stream (r'.rest ++ tail)).after ending.frames) where
  of_error h := by cases h
  passes h := by cases h; exact ⟨n, hn, fun h0 => by omega⟩
  of_quit h := by cases h; rfl
  of_ok h hne := by cases h; rw [if_neg hne]
  not_suspended _ h := by cases h; exact hs rfl

/-- A pass that waits for more input. -/
theorem followedBy_waiting [Memory] {stream : Option Stream} {failLevel : Level} {r : BitReader}
    {tail : List Bool} {ending : PassEnd}
    (h : ending = .suspended ∨ ending = .paused ∧ r.available < Command.minimalBits) :
    FollowedBy stream (.ok (ending, r)) failLevel false r tail
      (Transcript.ahead failLevel stream (r.rest ++ tail)) where
  of_error h := by cases h
  passes hok := by
    cases hok
    refine ⟨0, .refl _, fun _ => ?_⟩
    rcases h with h | ⟨-, h⟩
    · exact .inr (.inl h)
    · exact .inr (.inr ⟨rfl, h⟩)
  of_quit hok := by cases hok; rcases h with h | ⟨h, -⟩ <;> cases h
  of_ok hok _ := by cases hok; rcases h with rfl | ⟨rfl, -⟩ <;> rfl
  not_suspended h := by cases h

/-- A pass that fails. -/
theorem followedBy_failed [Memory] {stream : Option Stream} {failLevel : Level} {flush : Bool}
    {r : BitReader} {tail : List Bool} {fault : Fault} :
    FollowedBy stream (.error fault) failLevel flush r tail
      (Transcript.failed stream fault).unplaced where
  of_error h := by cases h; rfl
  passes h := by cases h
  of_quit h := by cases h
  of_ok h _ := by cases h
  not_suspended _ h := by cases h

/-- Where the input is complete and no command can be carried out, a pass ends the stream. -/
theorem runCommands_of_stuck [Memory] {s : Stream} {r : BitReader} (h : s.next? r = none)
    (failLevel : Level) :
    (s.runCommands failLevel true r).value.stream = s ∧
      ∀ {ending r'}, (s.runCommands failLevel true r).value.outcome = .ok (ending, r') →
        ending = .quit ∧ ∃ n, r.Passes n r' := by
  have missing {n : Nat} {r' r'' : BitReader} {ending : PassEnd}
      (h : (s.endWithoutQuit failLevel n r').value.outcome = .ok (ending, r'')) :
      ending = .quit ∧ r'' = r' := by
    rw [value_endWithoutQuit] at h
    dsimp only at h
    split at h
    · cases h
    · cases h
      exact ⟨rfl, rfl⟩
  by_cases hlen : r.available < Command.minimalBits
  · rw [value_runCommands_of_short hlen, if_pos rfl, endInTail]
    split
    · rename_i r' hc
      refine ⟨rfl, fun hok => ?_⟩
      obtain ⟨n, hn⟩ := Command.passes_of_read hc
      cases hok
      exact ⟨rfl, _, hn⟩
    · refine ⟨by rw [value_endWithoutQuit], fun hok => ?_⟩
      obtain ⟨he, rfl⟩ := missing hok
      exact ⟨he, 0, .refl _⟩
  · have hlen := Nat.le_of_not_lt hlen
    obtain ⟨fault, hx⟩ := exists_fault_of_stuck h hlen
    rw [value_runCommands_of_error hlen hx]
    split
    · exact ⟨rfl, fun hok => by cases hok⟩
    · rw [if_neg (by decide)]
      split
      · refine ⟨by rw [value_endWithoutQuit], fun hok => ?_⟩
        obtain ⟨he, rfl⟩ := missing hok
        exact ⟨he, passes_cutOff r⟩
      · exact ⟨rfl, fun hok => by cases hok⟩

theorem followedBy_of_stuck [Memory] {s : Stream} {r : BitReader} (h : s.next? r = none)
    (failLevel : Level) {flush : Bool} {tail : List Bool} (htail : flush = true → tail = []) :
    let pass := (s.runCommands failLevel flush r).value
    FollowedBy (some pass.stream) pass.outcome failLevel flush r tail
      (s.transcript failLevel (r.rest ++ tail)) := by
  dsimp only
  cases flush with
  | true =>
    obtain ⟨hs, hok⟩ := runCommands_of_stuck h failLevel
    have ht : s.transcript failLevel (r.rest ++ tail) = (s.ending failLevel r).unplaced := by
      rw [htail rfl, List.append_nil, ← unplaced_playOut, playOut_of_stuck h]
    refine ⟨fun he => ?_, fun he => ?_, fun he => ?_, fun he hne => ?_, fun _ he => ?_⟩
    · rw [ht, ending, he, hs]
    · obtain ⟨hq, n, hn⟩ := hok he
      exact ⟨n, hn, fun _ => .inl hq⟩
    · rw [ht, ending, he, hs]
    · exact absurd (hok he).1 hne
    · cases (hok he).1
  | false =>
    by_cases hlen : r.available < Command.minimalBits
    · rw [value_runCommands_of_short hlen, if_neg (by decide)]
      exact followedBy_waiting (.inr ⟨rfl, hlen⟩)
    · have hlen := Nat.le_of_not_lt hlen
      obtain ⟨fault, hx⟩ := exists_fault_of_stuck h hlen
      rw [value_runCommands_of_error hlen hx]
      cases hf : fault.isOverread with
      | true => exact followedBy_waiting (.inl rfl)
      | false =>
        rw [transcript_of_fault hlen hx hf]
        exact followedBy_failed

/-- **A pass brings about the front of what lies ahead.**  On input that is complete there is
nothing behind the bits it runs on. -/
theorem runCommands_followedBy [Memory] (s : Stream) (failLevel : Level) {flush : Bool}
    (r : BitReader) {tail : List Bool} (htail : flush = true → tail = []) :
    let pass := (s.runCommands failLevel flush r).value
    FollowedBy (some pass.stream) pass.outcome failLevel flush r tail
      (s.transcript failLevel (r.rest ++ tail)) := by
  dsimp only
  cases h : s.next? r with
  | none => exact followedBy_of_stuck h failLevel htail
  | some x =>
    obtain ⟨⟨e, s'⟩, r'⟩ := x
    obtain ⟨n, hpos, hn, -⟩ := next?_within h
    have := available_lt_of_next? h
    rw [value_runCommands_of_next? h, transcript_of_next? h]
    cases e with
    | silent => exact (runCommands_followedBy s' failLevel r' htail).of_passes hn hpos
    | pause => exact followedBy_behind hn hpos (by decide)
    | frame f => exact followedBy_behind hn hpos (by rintro ⟨⟩)
    | quit => exact followedBy_behind hn hpos (by decide)
termination_by r.available

end Stream

end LosslessAudio
