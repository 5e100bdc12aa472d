import LosslessAudio.Proofs.Transcript

/-!
# Playing a stream in pieces

`Plays d pieces t` says what a caller gets who offers the pieces one after the other, offers again
what a call did not take, and then lets the decoder finish: the frames, how it ended, and the
decoder afterwards.  No two runs of this kind differ (`Plays.unique`).

* `PendingInput.Sound` — what holds of the pending input between two calls, and `unread`, the bits
  in it that are still to come.
* `passOver_followedBy` — a pass over the pending input brings about the front of what lies ahead.
* `playsOut_of_ready` — every run ends, and brings about exactly what lies ahead.
-/

set_option autoImplicit false

namespace LosslessAudio

/-! ## Runs -/

/-- The frame that a call gives back, if any. -/
def Status.frames : Status → List Frame
  | .frame f => [f]
  | _ => []

/-- What is left to offer behind a call that took `taken` bytes of `piece`. -/
def leftover (piece : Bytes) (taken : Nat) (pieces : List Bytes) : List Bytes :=
  if taken < piece.length then piece.drop taken :: pieces else pieces

/-- What a caller gets out of a stream, and the decoder afterwards. -/
structure Playback where
  frames : List Frame
  outcome : Except Fault Unit
  decoder : Decoder

namespace Playback

/-- The run with more frames in front. -/
def after (t : Playback) (frames : List Frame) : Playback :=
  { t with frames := frames ++ t.frames }

/-- What does not depend on how the input was cut up. -/
def transcript (t : Playback) : Transcript :=
  Transcript.unplaced ⟨t.frames, t.decoder.stream, t.outcome⟩

@[simp] theorem transcript_after (t : Playback) (frames : List Frame) :
    (t.after frames).transcript = t.transcript.after frames := rfl

end Playback

/-- What a caller gets who offers the pieces one after the other, offers again what was not taken,
and finally says that the input is complete until the stream has ended. -/
inductive Plays [Memory] : Decoder → List Bytes → Playback → Prop
  /-- A call that fails is the last one. -/
  | failed {d d' : Decoder} {pieces : List Bytes} {fault : Fault}
      (h : (d.decode pieces.head?).value = (d', .error fault)) :
      Plays d pieces ⟨[], .error fault, d'⟩
  | offered {d d' : Decoder} {piece : Bytes} {pieces : List Bytes} {out : Output} {t : Playback}
      (h : (d.decode (some piece)).value = (d', .ok out))
      (ht : Plays d' (leftover piece out.consumed pieces) t) :
      Plays d (piece :: pieces) (t.after out.status.frames)
  | drained {d d' : Decoder} {out : Output} {t : Playback}
      (h : (d.decode none).value = (d', .ok out))
      (hs : out.status ≠ .finished ∧ out.status ≠ .needMoreInput) (ht : Plays d' [] t) :
      Plays d [] (t.after out.status.frames)
  | finished {d d' : Decoder} {out : Output} (h : (d.decode none).value = (d', .ok out))
      (hs : out.status = .finished) : Plays d [] ⟨[], .ok (), d'⟩

/-- There is only one such run. -/
theorem Plays.unique [Memory] {d : Decoder} {pieces : List Bytes} {t t' : Playback}
    (h : Plays d pieces t) (h' : Plays d pieces t') : t = t' := by
  induction h generalizing t' with
  | failed h =>
    cases h' with
    | failed h₁ => rw [h] at h₁; cases h₁; rfl
    | offered h₁ => rw [List.head?_cons, h₁] at h; cases h
    | drained h₁ => rw [List.head?_nil, h₁] at h; cases h
    | finished h₁ => rw [List.head?_nil, h₁] at h; cases h
  | offered h _ ih =>
    cases h' with
    | failed h₁ => rw [List.head?_cons, h] at h₁; cases h₁
    | offered h₁ ht => rw [h] at h₁; cases h₁; rw [ih ht]
  | drained h hs _ ih =>
    cases h' with
    | failed h₁ => rw [List.head?_nil, h] at h₁; cases h₁
    | drained h₁ _ ht => rw [h] at h₁; cases h₁; rw [ih ht]
    | finished h₁ hs' => rw [h] at h₁; cases h₁; exact absurd hs' hs.1
  | finished h hs =>
    cases h' with
    | failed h₁ => rw [List.head?_nil, h] at h₁; cases h₁
    | drained h₁ hs' => rw [h] at h₁; cases h₁; exact absurd hs hs'.1
    | finished h₁ => rw [h] at h₁; cases h₁; rfl

/-! ## The pending input -/

namespace PendingInput

/-- The pending bits that are still to come. -/
def unread (p : PendingInput) : List Bool :=
  (Bits.ofBytes p.bytes).drop p.bitOffset

/-- What holds of the pending input between two calls. -/
structure Sound (p : PendingInput) : Prop where
  bitOffset_le : p.bitOffset ≤ 8 * p.length
  minimal_le : minimalFrameSize ≤ p.frameSize
  length_le : p.length ≤ p.frameSize
  bitOffset_lt : p.bitOffset < 8

theorem sound_empty (frameSize : Nat) : (empty frameSize).Sound :=
  ⟨Nat.zero_le _, Nat.le_max_left _ _, Nat.zero_le _, Nat.zero_lt_succ 7⟩

variable {p : PendingInput}

theorem length_unread : p.unread.length = 8 * p.length - p.bitOffset := by
  rw [unread, List.length_drop, Bits.length_ofBytes, length]

theorem reader_eq (hle : p.bitOffset ≤ 8 * p.length) :
    p.reader = .ok ⟨p.bitOffset, p.unread⟩ := by
  rw [reader, BitReader.skip, if_pos]
  · simp [BitReader.advance, BitReader.ofBytes, unread]
  · rw [List.length_take, BitReader.ofBytes, Bits.length_ofBytes]
    exact Nat.min_eq_left hle

theorem consumed_fill (offered : Bytes) :
    (p.fill offered).1 = min p.room offered.length :=
  List.length_take

theorem length_fill (offered : Bytes) :
    (p.fill offered).2.length = p.length + (p.fill offered).1 := by
  simp [fill, length]

theorem frameSize_fill (offered : Bytes) : (p.fill offered).2.frameSize = p.frameSize := rfl

theorem sound_fill (h : p.Sound) (offered : Bytes) : (p.fill offered).2.Sound := by
  have hoffset := h.bitOffset_le
  have hlength := h.length_le
  refine ⟨?_, h.minimal_le, ?_, h.bitOffset_lt⟩
  · rw [length_fill]
    exact Nat.le_trans hoffset (Nat.mul_le_mul_left 8 (Nat.le_add_right _ _))
  · rw [length_fill, consumed_fill, frameSize_fill, room]
    omega

theorem append_eq [Memory] (offered : Bytes) :
    p.append offered =
      if 0 < (p.fill offered).1 then
        (Memory.reserve .input (p.fill offered).2.length).map fun _ => p.fill offered
      else .ok (p.fill offered) := by
  rw [append]
  dsimp only
  split
  · cases Memory.reserve .input (p.fill offered).2.length <;> rfl
  · rfl

/-- Either there is room for what is taken, or the failure says what it was asked for. -/
theorem append_cases [Memory] (p : PendingInput) (offered : Bytes) :
    p.append offered = .ok (p.fill offered) ∨
      p.append offered =
        .error (.storage (.allocation Purpose.input.name (p.fill offered).2.length)) := by
  rw [append_eq, Memory.reserve]
  split
  · split
    · exact .inl rfl
    · exact .inr rfl
  · exact .inl rfl

/-- The buffer can grow to `n` bytes and is granted the room for them. -/
def CanHold [Memory] (n : Nat) : Prop :=
  n < maxFrameSize ∧ ∀ k ≤ n, Memory.grants .input k

theorem CanHold.mono [Memory] {m n : Nat} (h : CanHold n) (hle : m ≤ n) : CanHold m :=
  ⟨Nat.lt_of_le_of_lt hle h.1, fun k hk => h.2 k (Nat.le_trans hk hle)⟩

theorem append_of_canHold [Memory] {offered : Bytes}
    (h : CanHold (p.length + offered.length)) : p.append offered = .ok (p.fill offered) := by
  have hle : (p.fill offered).2.length ≤ p.length + offered.length := by
    rw [length_fill, consumed_fill]
    exact Nat.add_le_add_left (Nat.min_le_right _ _) _
  rw [append_eq, Memory.reserve, if_pos (h.2 _ hle)]
  exact ite_self _

/-- What is taken and what is left over is what was offered. -/
theorem unread_fill (h : p.Sound) (offered : Bytes) :
    (p.fill offered).2.unread ++ Bits.ofBytes (offered.drop (p.fill offered).1) =
      p.unread ++ Bits.ofBytes offered := by
  have hoffset : p.bitOffset ≤ (Bits.ofBytes p.bytes).length := by
    rw [Bits.length_ofBytes]
    exact h.bitOffset_le
  have hdrop : offered.drop (offered.take p.room).length = offered.drop p.room := by
    rcases Nat.le_total p.room offered.length with hle | hle
    · rw [List.length_take_of_le hle]
    · rw [List.take_of_length_le hle, List.drop_length, List.drop_of_length_le hle]
  simp only [fill, unread, Bits.ofBytes_append, hdrop]
  rw [List.drop_append_of_le_length hoffset, List.append_assoc, ← Bits.ofBytes_append,
    List.take_append_drop]

theorem drop_ofBytes (bytes : Bytes) (n : Nat) :
    (Bits.ofBytes bytes).drop (8 * n) = Bits.ofBytes (bytes.drop n) := by
  induction n generalizing bytes with
  | zero => rfl
  | succ n ih =>
    cases bytes with
    | nil => simp
    | cons b bytes =>
      rw [List.drop_succ_cons, ← ih, Bits.ofBytes_cons, Nat.mul_succ, Nat.add_comm,
        ← List.drop_drop, List.drop_left' (Bits.length_ofByte b)]

/-- A pass that ended `n` bits further on uses up these bits. -/
theorem consume_of_passes (hoffset : p.bitOffset ≤ 8 * p.length) {n : Nat} {r' : BitReader}
    (hn : (⟨p.bitOffset, p.unread⟩ : BitReader).Passes n r') :
    ∃ k p', p.consume r'.position = (.ok k, p') ∧ p'.unread = r'.rest ∧
      (p'.bitOffset ≤ 8 * p'.length ∧ p'.bitOffset < 8) ∧
      p'.length ≤ p.length ∧ p'.frameSize = p.frameSize := by
  obtain ⟨hle, rfl⟩ := hn
  rw [BitReader.available, length_unread] at hle
  have hposition : (BitReader.advance ⟨p.bitOffset, p.unread⟩ n).position = p.bitOffset + n := rfl
  have hdropped : ¬p.length < (p.bitOffset + n) / 8 := by omega
  have hp' : (p.bytes.drop ((p.bitOffset + n) / 8)).length = p.length - (p.bitOffset + n) / 8 :=
    List.length_drop
  rw [hposition, consume, if_neg hdropped]
  refine ⟨_, _, rfl, ?_, ⟨?_, ?_⟩, ?_, rfl⟩
  · rw [unread, ← drop_ofBytes, List.drop_drop]
    dsimp only
    rw [Nat.div_add_mod, BitReader.advance, unread, List.drop_drop]
  · rw [length, hp']
    dsimp only
    omega
  · exact Nat.mod_lt _ (by decide)
  · rw [length, hp']
    exact Nat.sub_le _ _

theorem length_grow : p.grow.length = p.length := rfl

theorem unread_grow : p.grow.unread = p.unread := rfl

theorem sound_grow (h : p.Sound) (hmax : p.length < maxFrameSize) : p.grow.Sound := by
  have hminimal := h.minimal_le
  have hlength := h.length_le
  refine ⟨h.bitOffset_le, ?_, ?_, h.bitOffset_lt⟩
  · exact Nat.le_min.2 ⟨by decide, by omega⟩
  · rw [length_grow]
    exact Nat.le_min.2 ⟨Nat.le_of_lt hmax, by omega⟩

/-- Behind a pass that has to wait there is room for more input. -/
theorem length_lt_grow (h : p.Sound) (hmax : p.length < maxFrameSize) :
    p.grow.length < p.grow.frameSize := by
  have hminimal := h.minimal_le
  have hlength := h.length_le
  rw [minimalFrameSize] at hminimal
  rw [length_grow]
  exact Nat.lt_min.2 ⟨hmax, by omega⟩

/-- What a pass uses up: the bits still to come, and the room that a full buffer lacks. -/
def work (p : PendingInput) : Nat :=
  p.unread.length + if p.frameSize ≤ p.length then 1 else 0

theorem fill_nil (p : PendingInput) : p.fill [] = (0, p) := by
  simp [fill]

/-- Where nothing is offered, there is nothing to make room for. -/
theorem append_nil [Memory] (p : PendingInput) : p.append [] = .ok (p.fill []) := by
  rw [append_eq, fill_nil]
  rfl

/-- Taking input is paid for by the pieces it comes from. -/
theorem work_fill (h : p.Sound) (offered : Bytes) :
    (p.fill offered).2.work ≤ p.work + 9 * (p.fill offered).1 := by
  have htaken := consumed_fill (p := p) offered
  have hlength := length_fill (p := p) offered
  have hframe := frameSize_fill (p := p) offered
  have hoffset : (p.fill offered).2.bitOffset = p.bitOffset := rfl
  have hle := h.bitOffset_le
  rw [room] at htaken
  rw [work, work, length_unread, length_unread, hoffset]
  split <;> split <;> omega

/-- A pass that moves on makes the work less. -/
theorem work_lt {p' : PendingInput} (hle : p'.length ≤ p.length)
    (hframe : p'.frameSize = p.frameSize) (h : p'.unread.length < p.unread.length) :
    p'.work < p.work := by
  rw [work, work, hframe]
  split <;> split <;> omega

/-- So does one that has to wait, since the buffer was full. -/
theorem work_grow_lt {p' : PendingInput} (hs : p'.Sound) (hmax : p'.length < maxFrameSize)
    (hfull : p.frameSize ≤ p.length) (h : p'.unread.length ≤ p.unread.length) :
    p'.grow.work < p.work := by
  rw [work, work, if_pos hfull, if_neg (Nat.not_le.2 (length_lt_grow hs hmax)), unread_grow]
  omega

end PendingInput

/-! ## One pass -/

namespace Decoder

variable {d : Decoder}

/-- One pass over the bits of `r`, over the header first and over commands from then on. -/
def passOver [Memory] (d : Decoder) (flush : Bool) (r : BitReader) :
    Option Stream × Except Fault (Stream.PassEnd × BitReader) :=
  match d.stream with
  | none => (d.readHeader flush r).value
  | some s =>
    let pass := (s.runCommands d.failLevel flush r).value
    (some pass.stream, pass.outcome)

theorem value_readHeader [Memory] (d : Decoder) (flush : Bool) (r : BitReader) :
    (d.readHeader flush r).value =
      match (StreamInfo.read d.failLevel r).outcome with
      | .error fault =>
        (none, if fault.isOverread && !flush then .ok (.suspended, r) else .error fault)
      | .ok (info, r) =>
        match Stream.start info with
        | .error fault => (none, .error fault)
        | .ok s => (some s, .ok (.paused, r)) := by
  rw [readHeader, Logged.value_bind, Checked.outcome]
  cases (StreamInfo.read d.failLevel r).run.value with
  | error fault => dsimp only; split <;> rfl
  | ok x =>
    obtain ⟨info, r'⟩ := x
    dsimp only
    cases Stream.start info <;> rfl

theorem value_settle {ending : Stream.PassEnd} {r : BitReader} {k : Nat} {p : PendingInput}
    (h : d.input.consume r.position = (.ok k, p)) :
    (d.settle ending r).value =
      if ending = .suspended then ({ d with input := p.grow }, .ok (statusOf ending))
      else ({ d with input := p, condition := if ending = .quit then .finished else d.condition },
        .ok (statusOf ending)) := by
  rw [settle, h]
  dsimp only
  split <;> rfl

theorem value_runPass [Memory] (h : d.input.bitOffset ≤ 8 * d.input.length) (flush : Bool) :
    (d.runPass flush).value =
      let pass := d.passOver flush ⟨d.input.bitOffset, d.input.unread⟩
      match pass.2 with
      | .error fault => giveUp { d with stream := pass.1 } fault
      | .ok (ending, r) => (settle { d with stream := pass.1 } ending r).value := by
  rw [runPass, PendingInput.reader_eq h]
  dsimp only
  rw [passOver]
  cases d.stream with
  | none =>
    dsimp only [Logged.value_bind]
    cases (d.readHeader flush ⟨d.input.bitOffset, d.input.unread⟩).value.2 <;> rfl
  | some s =>
    dsimp only [Logged.value_bind, Logged.value_pure]
    cases (s.runCommands d.failLevel flush ⟨d.input.bitOffset, d.input.unread⟩).value.outcome <;>
      rfl

/-- A header that cannot be read fails in the same way on all the input, if there may be more of
it. -/
theorem error_read_within {failLevel : Level} {flush : Bool} {r : BitReader} {tail : List Bool}
    (htail : flush = true → tail = []) {fault : Fault}
    (hread : (StreamInfo.read failLevel r).outcome = .error fault)
    (hnow : fault.isOverread = true → flush = true) :
    ∃ fault', (StreamInfo.read failLevel (r.within 0 tail)).outcome = .error fault' ∧
      fault'.isOverread = fault.isOverread ∧
      (fault.isOverread = false → fault'.unplaced = fault.unplaced) := by
  have header := StreamInfo.selfDelimiting_read failLevel
  cases hf : fault.isOverread with
  | false =>
    obtain ⟨fault', h, hu⟩ := header.error hread hf 0 tail
    exact ⟨fault', h, (isOverread_of_unplaced_eq hu).trans hf, fun _ => hu⟩
  | true =>
    obtain ⟨fault', h, hov, hu⟩ := header.error_within hread 0
    rw [htail (hnow hf)]
    refine ⟨fault', h, hov.trans hf, ?_⟩
    intro hfalse
    cases hfalse

/-- **A pass over the pending input brings about the front of what lies ahead.** -/
theorem passOver_followedBy [Memory] (d : Decoder) (flush : Bool) (r : BitReader) {tail : List Bool}
    (htail : flush = true → tail = []) :
    Stream.FollowedBy (d.passOver flush r).1 (d.passOver flush r).2 d.failLevel flush r tail
      (Transcript.ahead d.failLevel d.stream (r.rest ++ tail)) := by
  rw [passOver]
  cases d.stream with
  | some s => exact Stream.runCommands_followedBy s d.failLevel r htail
  | none =>
    dsimp only
    rw [value_readHeader, Transcript.ahead,
      show (⟨0, r.rest ++ tail⟩ : BitReader) = r.within 0 tail from rfl]
    cases hread : (StreamInfo.read d.failLevel r).outcome with
    | ok x =>
      obtain ⟨info, r'⟩ := x
      obtain ⟨n, hn, hok⟩ := (StreamInfo.selfDelimiting_read d.failLevel).ok hread
      obtain ⟨n', hpos, hn'⟩ := StreamInfo.passes_of_read hread
      rw [hok 0 tail]
      dsimp only
      cases Stream.start info with
      | error fault => exact Stream.followedBy_failed
      | ok s => exact Stream.followedBy_behind hn' hpos (by decide)
    | error fault =>
      dsimp only
      by_cases hwait : (fault.isOverread && !flush) = true
      · rw [if_pos hwait]
        rw [Bool.and_eq_true, Bool.not_eq_true'] at hwait
        obtain ⟨-, rfl⟩ := hwait
        have h : Stream.FollowedBy none (.ok (.suspended, r)) d.failLevel false r tail
            (Transcript.ahead d.failLevel none (r.rest ++ tail)) :=
          Stream.followedBy_waiting (.inl rfl)
        rwa [Transcript.ahead] at h
      · rw [if_neg hwait]
        have hflush (hf : fault.isOverread = true) : flush = true := by
          rw [hf, Bool.true_and, Bool.not_eq_true', Bool.not_eq_false] at hwait
          exact hwait
        obtain ⟨fault', hread', hov, hu⟩ := error_read_within htail hread hflush
        rw [hread']
        dsimp only
        rw [Transcript.unplaced_failed_congr hov hu]
        exact Stream.followedBy_failed

/-- What a pass over the pending input of `d`, which has the bits `tail` behind it, makes of the
decoder and answers, if `t` is what lay ahead. -/
inductive Answers [Memory] (d : Decoder) (flush : Bool) (tail : List Bool) (t : Transcript) :
    Decoder × Except Fault Status → Prop
  | failed {d' : Decoder} {fault : Fault} (h : t = Playback.transcript ⟨[], .error fault, d'⟩) :
      Answers d flush tail t (d', .error fault)
  | ended {d' : Decoder} (hc : d'.condition = .finished)
      (h : t = Playback.transcript ⟨[], .ok (), d'⟩) : Answers d flush tail t (d', .ok .noFrame)
  | active {d' : Decoder} {status : Status} (hc : d'.condition = .active) (hs : d'.input.Sound)
      (hwork : d'.input.work < d.input.work) (hle : d'.input.length ≤ d.input.length)
      (hstatus : status ≠ .finished ∧ (flush = true → status ≠ .needMoreInput))
      (h : t = (Transcript.ahead d'.failLevel d'.stream (d'.input.unread ++ tail)).after
        status.frames) :
      Answers d flush tail t (d', .ok status)

theorem Fault.unplaced_reported (fault : Fault) (m n : Nat) :
    (fault.reported m).unplaced = (fault.reported n).unplaced := by
  rw [Fault.reported, Fault.reported]
  split <;> rfl

theorem frames_statusOf (ending : Stream.PassEnd) : (statusOf ending).frames = ending.frames := by
  cases ending <;> rfl

theorem giveUp_eq (d : Decoder) (fault : Fault) :
    d.giveUp fault = ({ d with input := d.input.clear, condition := .failed },
      .error (fault.reported d.input.length)) := rfl

/-- A ready decoder has enough bits for a pass to look for a command. -/
theorem not_short_of_isReady (h : d.input.Sound) (hready : d.input.isReady false = true) :
    Command.minimalBits ≤ d.input.unread.length := by
  have hoffset := h.bitOffset_lt
  have hminimal := h.minimal_le
  rw [PendingInput.isReady, Bool.false_or, decide_eq_true_eq] at hready
  rw [PendingInput.length_unread]
  rw [PendingInput.minimalFrameSize] at hminimal
  rw [Command.minimalBits]
  omega

/-- What is kept of a pass that ended without a fault. -/
theorem settle_answers [Memory] (hc : d.condition = .active) (hs : d.input.Sound)
    (hmax : d.input.length < PendingInput.maxFrameSize) {flush : Bool}
    (hready : d.input.isReady flush = true) {tail : List Bool} {stream : Option Stream}
    {ending : Stream.PassEnd} {r' : BitReader} {t : Transcript}
    (h : Stream.FollowedBy stream (.ok (ending, r')) d.failLevel flush
      ⟨d.input.bitOffset, d.input.unread⟩ tail t) :
    Answers d flush tail t (settle { d with stream } ending r').value := by
  obtain ⟨n, hn, hzero⟩ := h.passes rfl
  obtain ⟨k, p', hconsume, hunread, ⟨hoffset, hbit⟩, hle, hframe⟩ :=
    PendingInput.consume_of_passes hs.bitOffset_le hn
  have hs' : p'.Sound :=
    ⟨hoffset, hframe ▸ hs.minimal_le, hframe ▸ Nat.le_trans hle hs.length_le, hbit⟩
  have hleft : p'.unread.length + n = d.input.unread.length := by
    rw [hunread]
    exact hn.available_eq
  rw [value_settle (d := { d with stream }) hconsume]
  by_cases hsuspended : ending = .suspended
  · subst hsuspended
    have hflush : flush = false := by
      cases hf : flush with
      | false => rfl
      | true => exact absurd rfl (h.not_suspended hf)
    subst hflush
    have hmax' : p'.length < PendingInput.maxFrameSize := Nat.lt_of_le_of_lt hle hmax
    rw [if_pos rfl]
    refine .active hc (PendingInput.sound_grow hs' hmax') ?_ hle
      ⟨by decide, fun h => by cases h⟩ ?_
    · rw [PendingInput.isReady, Bool.false_or, decide_eq_true_eq] at hready
      exact PendingInput.work_grow_lt hs' hmax' hready (by omega)
    · exact hunread ▸ h.of_ok rfl (by decide)
  · rw [if_neg hsuspended]
    by_cases hquit : ending = .quit
    · subst hquit
      exact .ended rfl (h.of_quit rfl)
    · have hpos : n ≠ 0 := by
        intro h0
        rcases hzero h0 with h1 | h1 | ⟨rfl, hshort⟩
        · exact hquit h1
        · exact hsuspended h1
        · exact absurd (not_short_of_isReady hs hready) (Nat.not_le.2 hshort)
      have hless : p'.unread.length < d.input.unread.length := by omega
      refine .active ((if_neg hquit).trans hc) hs' (PendingInput.work_lt hle hframe hless) hle
        ?_ ?_
      · cases ending with
        | suspended => exact absurd rfl hsuspended
        | _ => exact ⟨by rintro ⟨⟩, fun _ => by rintro ⟨⟩⟩
      · rw [frames_statusOf]
        exact hunread ▸ h.of_ok rfl hquit

theorem runPass_answers [Memory] (hc : d.condition = .active) (hs : d.input.Sound)
    (hmax : d.input.length < PendingInput.maxFrameSize) {flush : Bool}
    (hready : d.input.isReady flush = true) (tail : List Bool) (htail : flush = true → tail = []) :
    Answers d flush tail (Transcript.ahead d.failLevel d.stream (d.input.unread ++ tail))
      (d.runPass flush).value := by
  rw [value_runPass hs.bitOffset_le]
  have h := d.passOver_followedBy flush ⟨d.input.bitOffset, d.input.unread⟩ htail
  generalize Transcript.ahead d.failLevel d.stream (d.input.unread ++ tail) = t at h
  cases hpass : d.passOver flush ⟨d.input.bitOffset, d.input.unread⟩ with
  | mk stream outcome =>
  rw [hpass] at h
  dsimp only at h ⊢
  cases outcome with
  | error fault =>
    dsimp only
    rw [giveUp_eq]
    refine .failed ((h.of_error rfl).trans ?_)
    rw [Transcript.unplaced_failed, Fault.unplaced_reported fault 0 d.input.length]
    rfl
  | ok x =>
    obtain ⟨ending, r'⟩ := x
    exact settle_answers hc hs hmax hready h

end Decoder

/-! ## The whole run -/

@[simp] theorem leftover_length (piece : Bytes) (pieces : List Bytes) :
    leftover piece piece.length pieces = pieces :=
  if_neg (Nat.lt_irrefl _)

theorem flatten_leftover (piece : Bytes) (n : Nat) (pieces : List Bytes) :
    (leftover piece n pieces).flatten = piece.drop n ++ pieces.flatten := by
  rw [leftover]
  split
  · rfl
  · rw [List.drop_of_length_le (by omega)]
    rfl

theorem length_leftover (piece : Bytes) (n : Nat) (pieces : List Bytes) :
    (leftover piece n pieces).length ≤ pieces.length + 1 := by
  rw [leftover]
  split
  · exact Nat.le_refl _
  · exact Nat.le_succ _

/-- A call that is not refused takes what fits, and runs a pass if there is enough. -/
theorem Decoder.value_decode [Memory] {d : Decoder} (h : d.condition = .active)
    (offered : Option Bytes)
    (hroom : d.input.append (offered.getD []) = .ok (d.input.fill (offered.getD []))) :
    (d.decode offered).value =
      let input := (d.input.fill (offered.getD [])).2
      let consumed := (d.input.fill (offered.getD [])).1
      if input.isReady offered.isNone then
        let answer := (runPass { d with input } offered.isNone).value
        (answer.1, answer.2.map (⟨consumed, ·⟩))
      else ({ d with input }, .ok ⟨consumed, .needMoreInput⟩) := by
  rw [decode, h]
  dsimp only
  rw [hroom]
  dsimp only
  split <;> rfl

/-- A call fails if there is no room for what it takes. -/
theorem Decoder.value_decode_of_denied [Memory] {d : Decoder} (h : d.condition = .active)
    {offered : Option Bytes} {fault : Fault}
    (hroom : d.input.append (offered.getD []) = .error fault) :
    (d.decode offered).value = ((d.giveUp fault).1, (d.giveUp fault).2.map (⟨0, ·⟩)) := by
  rw [decode, h]
  dsimp only
  rw [hroom]
  rfl

theorem Decoder.value_decode_of_failed [Memory] {d : Decoder} (h : d.condition = .failed)
    (offered : Option Bytes) : (d.decode offered).value = (d, .error .failedBefore) := by
  rw [decode, h]
  rfl

theorem Decoder.value_decode_of_finished [Memory] {d : Decoder} (h : d.condition = .finished)
    (offered : Option Bytes) :
    (d.decode offered).value = (d, .ok ⟨(offered.getD []).length, .finished⟩) := by
  rw [decode, h]
  rfl

/-- A decoder whose stream has ended ignores what it is offered. -/
theorem plays_of_finished [Memory] {d : Decoder} (h : d.condition = .finished)
    (pieces : List Bytes) :
    Plays d pieces ⟨[], .ok (), d⟩ := by
  have hd := Decoder.value_decode_of_finished h
  induction pieces with
  | nil => exact .finished (hd none) rfl
  | cons piece pieces ih =>
    refine Plays.offered (t := ⟨[], .ok (), d⟩) (hd (some piece)) ?_
    rw [Option.getD_some, leftover_length]
    exact ih

/-- A decoder that still decodes, and has not met more input than its buffer can hold. -/
structure Decoder.Ready [Memory] (d : Decoder) (pieces : List Bytes) : Prop where
  active : d.condition = .active
  sound : d.input.Sound
  held : PendingInput.CanHold (d.input.length + pieces.flatten.length)

/-- The run over the pieces ends, and brings about what lies ahead. -/
def Decoder.PlaysOut [Memory] (d : Decoder) (pieces : List Bytes) : Prop :=
  ∃ t, Plays d pieces t ∧ t.transcript =
    Transcript.ahead d.failLevel d.stream (d.input.unread ++ Bits.ofBytes pieces.flatten)

/-- What every call of a run makes less. -/
def Decoder.toDo (d : Decoder) (pieces : List Bytes) : Nat :=
  d.input.work + 9 * pieces.flatten.length + pieces.length

theorem playsOut_nil [Memory] {d : Decoder} (hd : d.Ready [])
    (ih : ∀ d' : Decoder, d'.Ready [] → d'.toDo [] < d.toDo [] → d'.PlaysOut []) :
    d.PlaysOut [] := by
  have hcall : (d.decode none).value =
      ((d.runPass true).value.1, (d.runPass true).value.2.map (⟨0, ·⟩)) := by
    rw [Decoder.value_decode hd.active none d.input.append_nil, Option.getD_none,
      PendingInput.fill_nil]
    rfl
  have hready : d.input.isReady true = true := rfl
  have hpass := Decoder.runPass_answers hd.active hd.sound hd.held.1 hready [] fun _ => rfl
  rw [Decoder.PlaysOut, List.flatten_nil, Bits.ofBytes_nil]
  cases hanswer : (d.runPass true).value with
  | mk d' answer =>
  rw [hanswer] at hcall hpass
  cases hpass with
  | failed h => exact ⟨_, .failed hcall, h.symm⟩
  | ended hc' h =>
    exact ⟨_, .drained hcall ⟨by decide, by decide⟩ (plays_of_finished hc' []), h.symm⟩
  | active hc' hs' hwork hle hstatus h =>
    obtain ⟨t, ht, hahead⟩ := ih d' ⟨hc', hs', hd.held.mono hle⟩ hwork
    refine ⟨_, .drained hcall ⟨hstatus.1, hstatus.2 rfl⟩ ht, ?_⟩
    rw [Playback.transcript_after, hahead, h]
    rfl

theorem playsOut_cons [Memory] {d : Decoder} {piece : Bytes} {pieces : List Bytes}
    (hd : d.Ready (piece :: pieces)) (ih : ∀ (d' : Decoder) (pieces' : List Bytes),
      d'.Ready pieces' → d'.toDo pieces' < d.toDo (piece :: pieces) → d'.PlaysOut pieces') :
    d.PlaysOut (piece :: pieces) := by
  have hroom : d.input.append piece = .ok (d.input.fill piece) := by
    refine PendingInput.append_of_canHold (hd.held.mono ?_)
    rw [List.flatten_cons, List.length_append]
    omega
  have hcall := Decoder.value_decode hd.active (some piece) hroom
  rw [Option.getD_some] at hcall
  have hsize := hd.held.1
  have htaken := PendingInput.consumed_fill (p := d.input) piece
  have hunread := PendingInput.unread_fill hd.sound piece
  have hlength := PendingInput.length_fill (p := d.input) piece
  have hwork := PendingInput.work_fill hd.sound piece
  have hframe := PendingInput.frameSize_fill (p := d.input) piece
  have hs := PendingInput.sound_fill hd.sound piece
  generalize (d.input.fill piece).1 = taken at *
  generalize (d.input.fill piece).2 = input at *
  have hleft := length_leftover piece taken pieces
  have hflatten := flatten_leftover piece taken pieces
  have hbytes : (leftover piece taken pieces).flatten.length + taken =
      (piece :: pieces).flatten.length := by
    rw [hflatten, List.flatten_cons, List.length_append, List.length_append, List.length_drop]
    omega
  have hbits : input.unread ++ Bits.ofBytes (leftover piece taken pieces).flatten =
      d.input.unread ++ Bits.ofBytes (piece :: pieces).flatten := by
    rw [hflatten, List.flatten_cons, Bits.ofBytes_append, Bits.ofBytes_append,
      ← List.append_assoc, hunread, List.append_assoc]
  rw [Decoder.PlaysOut, ← hbits]
  dsimp only [Option.isNone_some] at hcall
  by_cases hready : input.isReady false = true
  · rw [if_pos hready] at hcall
    have hpass := Decoder.runPass_answers (d := { d with input }) hd.active hs
      (by dsimp only; omega) hready (Bits.ofBytes (leftover piece taken pieces).flatten)
      (fun h => by cases h)
    cases hanswer : (Decoder.runPass { d with input } false).value with
    | mk d' answer =>
    rw [hanswer] at hcall hpass
    cases hpass with
    | failed h => exact ⟨_, .failed hcall, h.symm⟩
    | ended hc' h => exact ⟨_, .offered hcall (plays_of_finished hc' _), h.symm⟩
    | active hc' hs' hwork' hle hstatus h =>
      dsimp only at hwork' hle
      obtain ⟨t, ht, hahead⟩ := ih d' (leftover piece taken pieces)
        ⟨hc', hs', hd.held.mono (by omega)⟩
        (by rw [Decoder.toDo, Decoder.toDo, List.length_cons]; omega)
      refine ⟨_, .offered hcall ht, ?_⟩
      rw [Playback.transcript_after, hahead, h]
  · rw [if_neg hready] at hcall
    rw [PendingInput.isReady, Bool.false_or, decide_eq_true_eq] at hready
    -- there was room for all of the piece
    have hall : taken = piece.length := by
      rw [PendingInput.room] at htaken
      omega
    subst hall
    rw [leftover_length] at hbytes ⊢
    obtain ⟨t, ht, hahead⟩ := ih { d with input } pieces
      ⟨hd.active, hs, hd.held.mono (by dsimp only; omega)⟩
      (by rw [Decoder.toDo, Decoder.toDo, List.length_cons]; dsimp only; omega)
    refine ⟨t, Plays.offered (t := t) hcall ?_, hahead⟩
    rw [leftover_length]
    exact ht

/-- **Every run ends, and brings about exactly what lies ahead.** -/
theorem playsOut_of_ready [Memory] (d : Decoder) (pieces : List Bytes) (hd : d.Ready pieces) :
    d.PlaysOut pieces := by
  induction hn : d.toDo pieces using Nat.strongRecOn generalizing d pieces with
  | ind n ih =>
    subst hn
    cases pieces with
    | nil => exact playsOut_nil hd fun d' hd' hlt => ih _ hlt d' [] hd' rfl
    | cons piece pieces =>
      exact playsOut_cons hd fun d' pieces' hd' hlt => ih _ hlt d' pieces' hd' rfl

theorem Decoder.ready_start [Memory] (frameSize : Nat) (failLevel : Level) {pieces : List Bytes}
    (h : PendingInput.CanHold pieces.flatten.length) :
    (Decoder.start frameSize failLevel).Ready pieces where
  active := rfl
  sound := PendingInput.sound_empty frameSize
  held := by
    rw [Decoder.start, PendingInput.length, PendingInput.empty, List.length_nil, Nat.zero_add]
    exact h

/-- **Every run from the start brings about what lies in the pieces.** -/
theorem playsOut_start [Memory] (frameSize : Nat) (failLevel : Level) {pieces : List Bytes}
    (h : PendingInput.CanHold pieces.flatten.length) :
    ∃ t, Plays (.start frameSize failLevel) pieces t ∧
      t.transcript = Transcript.ahead failLevel none (Bits.ofBytes pieces.flatten) :=
  playsOut_of_ready _ _ (Decoder.ready_start frameSize failLevel h)

/-- What a run brings about is all there is to a transcript. -/
theorem Playback.transcript_inj {t t' : Playback} :
    t.transcript = t'.transcript ↔ t.frames = t'.frames ∧ t.decoder.stream = t'.decoder.stream ∧
      t.outcome.mapError Fault.unplaced = t'.outcome.mapError Fault.unplaced := by
  rw [transcript, transcript, Transcript.unplaced, Transcript.unplaced, Transcript.mk.injEq]

/-- **How a stream is cut into pieces does not matter.**  Whatever the frame size, the pieces lead
to the same frames, parameters, outcome and state of the stream (channel, bitshift, block size,
contexts and means) as the whole stream that is offered at once to a decoder with the usual frame
size.  Only what a fault says about the buffered input is left out.  Room for the stream has to be
granted, since the buffers do not ask for it in the same steps. -/
theorem plays_independent_of_pieces [Memory] (frameSize : Nat) (failLevel : Level)
    (pieces : List Bytes)
    (h : PendingInput.CanHold pieces.flatten.length) :
    ∃ t t₀, Plays (.start frameSize failLevel) pieces t ∧
      Plays (.ofLevel failLevel) [pieces.flatten] t₀ ∧
      t.frames = t₀.frames ∧ t.decoder.info? = t₀.decoder.info? ∧
      t.outcome.mapError Fault.unplaced = t₀.outcome.mapError Fault.unplaced ∧
      t.decoder.stream = t₀.decoder.stream := by
  have h₀ : PendingInput.CanHold [pieces.flatten].flatten.length := by
    rw [List.flatten_singleton]
    exact h
  obtain ⟨t, ht, hahead⟩ := playsOut_of_ready _ _ (Decoder.ready_start frameSize failLevel h)
  obtain ⟨t₀, ht₀, hahead₀⟩ := playsOut_of_ready _ _
    (Decoder.ready_start PendingInput.defaultFrameSize failLevel h₀)
  rw [List.flatten_singleton] at hahead₀
  -- neither buffer holds anything yet
  obtain ⟨hframes, hstream, houtcome⟩ := Playback.transcript_inj.1 (hahead.trans hahead₀.symm)
  refine ⟨t, t₀, ht, ht₀, hframes, ?_, houtcome, hstream⟩
  rw [Decoder.info?, Decoder.info?, hstream]

/-- A stereo stream of two frames, its header being 494 bits long. -/
def stereoStream : Bytes :=
  [0x61, 0x6A, 0x6B, 0x67, 2, 203, 182, 77, 53, 214, 168, 171, 42, 84, 154, 53, 26, 121, 0, 128,
    64, 42, 244, 26, 181, 22, 205, 109, 186, 72, 34, 16, 8, 4, 2, 3, 0, 129, 64, 40, 154, 200, 4, 2,
    33, 177, 129, 64, 32, 144, 8, 132, 2, 201, 97, 186, 88, 99, 16, 8, 4, 2, 203, 34, 33, 26, 173,
    79, 85, 1, 49, 166, 145, 0]

/-- The first cut lies within the header of this stream, and the second one within the second block
of the right channel. -/
def stereoPieces : List Bytes :=
  [stereoStream.take 20, (stereoStream.drop 20).take 49, stereoStream.drop 69]

open scoped Memory in
theorem plays_independent_of_pieces_stereo :
    PendingInput.CanHold stereoPieces.flatten.length ∧
    ∃ t t₀, Plays (.start 0 .warn) stereoPieces t ∧ Plays (.ofLevel .warn) [stereoStream] t₀ ∧
      t.frames = t₀.frames ∧ t.decoder.info? = t₀.decoder.info? ∧
      t.outcome.mapError Fault.unplaced = t₀.outcome.mapError Fault.unplaced ∧
      t.decoder.stream = t₀.decoder.stream ∧ t.frames.length = 2 := by
  have hheld : PendingInput.CanHold stereoPieces.flatten.length := ⟨by decide, fun _ _ => rfl⟩
  obtain ⟨t, t₀, ht, ht₀, hframes, hinfo, houtcome, hstream⟩ :=
    plays_independent_of_pieces 0 .warn stereoPieces hheld
  obtain ⟨t', ht', hahead⟩ := playsOut_start 0 .warn hheld
  obtain rfl := ht.unique ht'
  refine ⟨hheld, t, t₀, ht, ht₀, hframes, hinfo, houtcome, hstream, ?_⟩
  calc t.frames.length
      = t.transcript.frames.length := rfl
    _ = 2 := by
      rw [hahead]
      decide +kernel

end LosslessAudio
