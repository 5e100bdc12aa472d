import LosslessAudio.Proofs.Calls
import LosslessAudio.Proofs.Simulation

/-!
# The machine answers as the decoder does

What was shown of single commands is carried on to passes, to calls, and to any number of calls.
Behind a command that had to wait the machine and the decoder are no longer alike: the machine keeps
what it has already written into a block.  So a machine stands for a decoder (`Represents`) if the
two are alike but for the places of blocks that hold no sample yet, which nothing is ever read from.

* `follows_runCommands` — a pass over commands, by induction on the bits that are left.
* `pass_holding` — any pass, that over the header too.
* `Represents.decode` — a call; the machine has an answer to it, and it is that of the decoder.
* `Represents.run` — any number of calls, so that the machine never breaks down.
-/

set_option autoImplicit false

namespace LosslessAudio

namespace Routine

open Registers

variable {s t : Stream}

/-! ## Passes -/

/-- Whether a pass ended the stream. -/
def quits : Except Fault (Stream.PassEnd × BitReader) → Bool
  | .ok (.quit, _) => true
  | _ => false

/-- The registers behind a pass. -/
def behindPass (failLevel : Level) (s : Stream)
    (outcome : Except Fault (Stream.PassEnd × BitReader)) : Registers :=
  { ofStream failLevel s with quitReceived := quits outcome }

theorem info_of_step {s s' : Stream} {b : Option Block} {e : Command.Effect}
    (h : s.Step b e s') : s'.info = s.info := by
  cases h <;> rfl

/-- Every command that is completed keeps the stream within its bounds. -/
theorem bounded_of_next? [Memory] (hs : s.Bounded) {e : Command.Effect} {s' : Stream}
    {r r' : BitReader} (h : s.next? r = some ((e, s'), r')) : s'.Bounded :=
  ⟨Stream.sound_of_step hs.toSound (Stream.step_of_next? h),
    info_of_step (Stream.step_of_next? h) ▸ hs.info⟩

theorem on_endWithoutQuit (failLevel : Level) (s t : Stream) (available : Nat) (r : BitReader) :
    (endWithoutQuit available r).on (ofStream failLevel t) =
      some ((s.endWithoutQuit failLevel available r).value.outcome,
        behindPass failLevel t (s.endWithoutQuit failLevel available r).value.outcome) := by
  rw [Stream.value_endWithoutQuit]
  dsimp only
  split
  · rename_i h
    exact on_bind_of_ok rfl (on_bind_of_error (on_lift (if_neg (not_not_intro h)) _))
  · rename_i h
    exact on_bind_of_ok rfl (on_bind_of_ok (on_lift (if_pos h) _) (on_bind_of_ok rfl rfl))

theorem on_endInTail (failLevel : Level) (s t : Stream) (r : BitReader) :
    (endInTail r).on (ofStream failLevel t) =
      some ((s.endInTail failLevel r).value.outcome,
        behindPass failLevel t (s.endInTail failLevel r).value.outcome) := by
  rw [endInTail, Stream.endInTail]
  cases Command.read r with
  | error fault => exact on_endWithoutQuit failLevel s t _ r
  | ok x =>
    obtain ⟨c, r₁⟩ := x
    cases c
    case quit => exact on_bind_of_ok (on_bind_of_ok rfl rfl) rfl
    all_goals exact on_endWithoutQuit failLevel s t _ r

/-- What a pass comes to on the registers of `t`: the outcome is that of the decoder, and so is
the stream but for its blank places. -/
def Follows [Memory] (failLevel : Level) (t : Stream) (flush : Bool) (r : BitReader)
    (pass : Stream.Pass) :
    Prop :=
  ∃ t' : Stream, t'.Bounded ∧ t'.blank = pass.stream.blank ∧
    runCommands flush r (ofStream failLevel t) =
      some (pass.outcome, behindPass failLevel t' pass.outcome)

theorem bounded_withBlock (ht : t.Bounded) {block : List Int32}
    (hlength : block.length = t.round.current.block.length) :
    (t.withCurrent { t.round.current with block }).Bounded :=
  have hcurrent := ht.histories _ t.round.current_mem_channels
  bounded_withCurrent ht ⟨hcurrent.context, hlength.trans hcurrent.block, hcurrent.means⟩

theorem blank_withBlock (t : Stream) {block : List Int32}
    (hlength : block.length = t.round.current.block.length) :
    (t.withCurrent { t.round.current with block }).blank = t.blank := by
  have hcurrent : ({ t.round.current with block } : ChannelHistory).blank 0 =
      t.round.current.blank 0 := by
    rw [ChannelHistory.blank, ChannelHistory.blank, hlength]
    rfl
  show ({ t with round := Round.mk _ _ _ } : Stream) = { t with round := Round.mk _ _ _ }
  rw [← hcurrent]
  rfl

theorem follows_of_stuck [Memory] (failLevel : Level) (ht : t.Bounded) (hst : t.blank = s.blank)
    {r : BitReader} (h : s.next? r = none) (flush : Bool) :
    Follows failLevel t flush r (s.runCommands failLevel flush r).value := by
  have hstream := (Stream.value_runCommands_of_stuck h failLevel flush).1
  rw [Follows, hstream]
  by_cases hlen : r.available < Command.minimalBits
  · refine ⟨t, ht, hst, ?_⟩
    rw [Stream.value_runCommands_of_short hlen, runCommands_of_short hlen]
    cases flush with
    | true => exact on_endInTail failLevel s t r
    | false => rfl
  · have hlen := Nat.le_of_not_lt hlen
    obtain ⟨fault, hfault⟩ := Stream.exists_fault_of_stuck h hlen
    obtain ⟨block, hlength, hcarry⟩ := on_carryOut_of_error failLevel ht
      (Stream.error_carryOut_of_blank_eq hst hfault)
    refine ⟨_, bounded_withBlock ht hlength, (blank_withBlock t hlength).trans hst, ?_⟩
    rw [Stream.value_runCommands_of_error hlen hfault, runCommands_of_error hlen hcarry]
    cases fault.isOverread with
    | false => rfl
    | true =>
      cases flush with
      | false => rfl
      | true =>
        cases Command.read r with
        | ok x => rfl
        | error fault' => exact on_endWithoutQuit failLevel s _ _ _

/-- **A pass of the machine is a pass of the decoder.** -/
theorem follows_runCommands [Memory] (failLevel : Level) {s t : Stream} (ht : t.Bounded)
    (hst : t.blank = s.blank) (flush : Bool) (r : BitReader) :
    Follows failLevel t flush r (s.runCommands failLevel flush r).value := by
  cases h : s.next? r with
  | none => exact follows_of_stuck failLevel ht hst h flush
  | some x =>
    obtain ⟨⟨e, s'⟩, r'⟩ := x
    have hless := Stream.available_lt_of_next? h
    obtain ⟨hlen, hcarry⟩ := Stream.next?_eq_some.1 h
    obtain ⟨t', ht', hblank⟩ := Stream.carryOut_of_blank_eq hst hcarry
    have hbounded := bounded_of_next? ht (Stream.next?_eq_some.2 ⟨hlen, ht'⟩)
    have hmachine := on_carryOut_of_ok failLevel ht ht'
    rw [Follows, Stream.value_runCommands_of_next? h, runCommands_of_ok hlen hmachine hless]
    cases e with
    | silent => exact follows_runCommands failLevel hbounded hblank flush r'
    | pause | frame f | quit => exact ⟨t', hbounded, hblank, rfl⟩
termination_by r.available

/-! ## The header -/

theorem createRow_eq [Memory] (info : StreamInfo) :
    createRow info = (ChannelHistory.create info.contextLength info.blockSize info.meanCount
      info.sampleType.initialMean).map ChannelHistory.row := by
  rw [createRow, ChannelHistory.create]
  cases Memory.reserve .samples (info.contextLength + info.blockSize) with
  | error fault => rfl
  | ok u =>
    cases Memory.reserve .means (ChannelHistory.keptMeans info.meanCount) with
    | error fault => rfl
    | ok u' =>
      have hrow : (ChannelHistory.initial info.contextLength info.blockSize info.meanCount
          info.sampleType.initialMean).row =
            ⟨List.replicate (info.contextLength + info.blockSize) 0, info.contextLength,
              List.replicate (ChannelHistory.keptMeans info.meanCount)
                info.sampleType.initialMean⟩ := by
        rw [ChannelHistory.row, ChannelHistory.samples, ChannelHistory.initial,
          List.replicate_append_replicate, List.length_replicate]
      exact congrArg Except.ok hrow.symm

theorem createRows_of_ok [Memory] {info : StreamInfo} {h : ChannelHistory}
    (hc : ChannelHistory.create info.contextLength info.blockSize info.meanCount
      info.sampleType.initialMean = .ok h) (n : Nat) :
    createRows info n = .ok (List.replicate n h.row) := by
  induction n with
  | zero => rfl
  | succ n ih =>
    rw [createRows, createRow_eq, hc, ih]
    rfl

theorem createRows_of_error [Memory] {info : StreamInfo} {fault : Fault}
    (hc : ChannelHistory.create info.contextLength info.blockSize info.meanCount
      info.sampleType.initialMean = .error fault) {n : Nat} (hn : 0 < n) :
    createRows info n = .error fault := by
  cases n with
  | zero => exact absurd hn (Nat.lt_irrefl 0)
  | succ n =>
    rw [createRows, createRow_eq, hc]
    rfl

theorem on_begin_of_ok [Memory] (failLevel : Level) {info : StreamInfo} (hinfo : info.Sound)
    (hs : Stream.start info = .ok s) :
    (begin info).on (initial failLevel) = some (.ok (), ofStream failLevel s) := by
  have hchannels := Stream.channels_start hinfo hs
  have heq := Stream.eq_of_start hs
  obtain ⟨h, hcreate, -⟩ := bind_eq_ok.1 hs
  have hrows := createRows_of_ok hcreate info.channels
  have hh : h = .initial info.contextLength info.blockSize info.meanCount
      info.sampleType.initialMean := by
    obtain ⟨_, -, hcreate⟩ := bind_eq_ok.1 hcreate
    obtain ⟨_, -, hcreate⟩ := bind_eq_ok.1 hcreate
    cases hcreate
    rfl
  refine on_bind_of_ok (on_lift hrows _) ?_
  rw [ofStream, hchannels, List.map_replicate, ← hh, heq]
  rfl

theorem on_begin_of_error [Memory] (failLevel : Level) {info : StreamInfo} (hinfo : info.Sound)
    {fault : Fault} (hs : Stream.start info = .error fault) :
    (begin info).on (initial failLevel) = some (.error fault, initial failLevel) := by
  rcases bind_eq_error.1 hs with hcreate | ⟨_, -, hs⟩
  · exact on_bind_of_error (on_lift (createRows_of_error hcreate hinfo.channels_pos) _)
  · cases hs

end Routine

/-- The registers of a decoder: those of its stream, or the first ones while there is none, with a
note of its condition. -/
def Registers.holding (failLevel : Level) (condition : Condition) (held : Option Stream) :
    Registers :=
  { held.elim (initial failLevel) (ofStream failLevel) with
    quitReceived := decide (condition = .finished)
    failed := decide (condition = .failed) }

/-- The stream that a machine holds is that of a decoder but for its blank places. -/
structure SameButBlank (held stream : Option Stream) : Prop where
  bounded : ∀ t, held = some t → t.Bounded
  blank : held.map Stream.blank = stream.map Stream.blank

namespace Routine

open Registers

/-- Whether the decoder still decodes behind a pass that did not fail. -/
def conditionBehind (outcome : Except Fault (Stream.PassEnd × BitReader)) : Condition :=
  if quits outcome then .finished else .active

theorem conditionBehind_ok (ending : Stream.PassEnd) (r : BitReader) :
    conditionBehind (.ok (ending, r)) = if ending = .quit then .finished else .active := by
  cases ending <;> rfl

theorem behindPass_eq (failLevel : Level) (s : Stream)
    (outcome : Except Fault (Stream.PassEnd × BitReader)) :
    behindPass failLevel s outcome = holding failLevel (conditionBehind outcome) (some s) := by
  rw [behindPass, conditionBehind]
  cases quits outcome <;> rfl

theorem on_readHeader_of_error [Memory] {s : Registers} {r : BitReader} {fault : Fault}
    (h : (StreamInfo.read s.failLevel r).outcome = .error fault) (flush : Bool) :
    (readHeader flush r).on s = (endAtFault flush fault r).on s := by
  refine on_bind_of_ok rfl ?_
  rw [h]

theorem on_readHeader_of_ok [Memory] {s : Registers} {r r' : BitReader} {info : StreamInfo}
    (h : (StreamInfo.read s.failLevel r).outcome = .ok (info, r')) (flush : Bool) :
    (readHeader flush r).on s = (begin info >>= fun _ => pure (.paused, r')).on s := by
  refine on_bind_of_ok rfl ?_
  rw [h]

theorem pass_holding_none [Memory] {d : Decoder} (hd : d.stream = none) (flush : Bool)
    (r : BitReader) :
    ∃ held, SameButBlank held (d.passOver flush r).1 ∧
      pass flush r (holding d.failLevel .active none) = some ((d.passOver flush r).2,
        holding d.failLevel (conditionBehind (d.passOver flush r).2) held) := by
  have hpass : pass flush r (holding d.failLevel .active none) =
      (readHeader flush r).on (initial d.failLevel) := if_neg Bool.false_ne_true
  have hnone : SameButBlank none none := ⟨fun t ht => (by cases ht), rfl⟩
  rw [hpass]
  have hheads := Decoder.heads_passOver hd flush r
  generalize d.passOver flush r = answer at hheads
  cases hheads with
  | waits hread hover hflush =>
    rw [on_readHeader_of_error (s := initial d.failLevel) hread, endAtFault, hover, hflush]
    exact ⟨none, hnone, rfl⟩
  | @refused fault hread hnow =>
    have hno : ¬(fault.isOverread && !flush) = true := fun h => by
      rw [Bool.and_eq_true, Bool.not_eq_true'] at h
      exact Bool.eq_false_iff.1 (hnow h.2) h.1
    rw [on_readHeader_of_error (s := initial d.failLevel) hread, endAtFault, if_neg hno]
    exact ⟨none, hnone, rfl⟩
  | tooLarge hread hstart =>
    rw [on_readHeader_of_ok (s := initial d.failLevel) hread]
    have hinfo := StreamInfo.sound_of_read hread
    exact ⟨none, hnone, on_bind_of_error (on_begin_of_error _ hinfo hstart)⟩
  | parsed hread hstart =>
    rw [on_readHeader_of_ok (s := initial d.failLevel) hread]
    have hinfo := StreamInfo.sound_of_read hread
    have hbounded : Stream.Bounded _ :=
      ⟨Stream.sound_start hinfo hstart, by rw [Stream.eq_of_start hstart]; exact hinfo⟩
    exact ⟨some _, ⟨fun t ht => (by cases ht; exact hbounded), rfl⟩,
      on_bind_of_ok (on_begin_of_ok _ hinfo hstart) rfl⟩

/-- **Any pass of the machine is the pass of the decoder.** -/
theorem pass_holding [Memory] {d : Decoder} {held : Option Stream} (h : SameButBlank held d.stream)
    (flush : Bool) (r : BitReader) :
    ∃ held', SameButBlank held' (d.passOver flush r).1 ∧
      pass flush r (holding d.failLevel .active held) = some ((d.passOver flush r).2,
        holding d.failLevel (conditionBehind (d.passOver flush r).2) held') := by
  obtain ⟨hbounded, hblank⟩ := h
  cases hd : d.stream with
  | none =>
    rw [hd, Option.map_none, Option.map_eq_none_iff] at hblank
    subst hblank
    exact pass_holding_none hd flush r
  | some s =>
    rw [hd, Option.map_some, Option.map_eq_some_iff] at hblank
    obtain ⟨t, rfl, hts⟩ := hblank
    obtain ⟨t', ht', hblank', hrun⟩ := follows_runCommands d.failLevel (hbounded t rfl) hts flush r
    rw [Decoder.passOver, hd]
    refine ⟨some t', ⟨fun u hu => (by cases hu; exact ht'), congrArg some hblank'⟩, ?_⟩
    rw [behindPass_eq] at hrun
    exact hrun

end Routine

/-! ## Calls -/

namespace Machine

/-- The machine stands for a decoder. -/
structure Represents (m : Machine) (d : Decoder) : Prop where
  initialFrameSize : m.initialFrameSize = d.initialFrameSize
  inBounds : m.window.InBounds
  pending : m.window.pending = d.input
  bitOffset_le : d.input.bitOffset ≤ 8 * d.input.length
  bitOffset_lt : d.input.bitOffset < 8
  registers : ∃ held, SameButBlank held d.stream ∧
    m.registers = .holding d.failLevel d.condition held

theorem represents_start (frameSize : Nat) (failLevel : Level) :
    (start frameSize failLevel).Represents (.start frameSize failLevel) where
  initialFrameSize := rfl
  inBounds := Nat.le_refl 0
  pending := rfl
  bitOffset_le := Nat.zero_le _
  bitOffset_lt := Nat.zero_lt_succ 7
  registers := ⟨none, ⟨fun t ht => (by cases ht), rfl⟩, rfl⟩

variable {m : Machine} {d : Decoder}

/-- What a pass runs on, and what it does to the registers. -/
theorem Represents.pass [Memory] (h : m.Represents d) (hc : d.condition = .active) (flush : Bool) :
    m.window.reader? = some d.resume ∧
      ∃ held, SameButBlank held (d.passOver flush d.resume).1 ∧
        Routine.pass flush d.resume m.registers = some ((d.passOver flush d.resume).2,
          .holding d.failLevel
            (Routine.conditionBehind (d.passOver flush d.resume).2) held) := by
  obtain ⟨-, hw, hpending, hoffset, -, held, hheld, hregisters⟩ := h
  rw [hregisters, hc]
  refine ⟨Window.reader?_eq hw ?_, Routine.pass_holding hheld flush _⟩
  rw [hpending]
  exact PendingInput.reader_eq hoffset

/-- Both drop the same input behind a pass. -/
theorem Represents.consume (h : m.Represents d) {r' : BitReader} {n k : Nat} {p : PendingInput}
    (hn : d.resume.Passes n r') (hconsume : d.input.consume r'.position = (.ok k, p)) :
    ∃ w, m.window.consume? r'.position = some w ∧ w.InBounds ∧ w.pending = p ∧
      p.unread = r'.rest ∧ p.bitOffset ≤ 8 * p.length ∧ p.bitOffset < 8 := by
  obtain ⟨k', p', hconsume', hunread, ⟨hoffset, hbit⟩, -⟩ :=
    PendingInput.consume_of_passes h.bitOffset_le hn
  cases hconsume'.symm.trans hconsume
  obtain ⟨w, hw, hpending, hin⟩ := Window.consume?_eq h.inBounds (h.pending ▸ hconsume)
  exact ⟨w, hw, hin, hpending, hunread, hoffset, hbit⟩

/-- Behind a pass that failed the machine gives up. -/
theorem runPass?_of_error [Memory] {flush : Bool} {r : BitReader} {registers : Registers}
    {fault : Fault} (hr : m.window.reader? = some r)
    (hpass : Routine.pass flush r m.registers = some (.error fault, registers))
    (hw : m.window.InBounds) :
    m.runPass? flush = some (.error (fault.reported m.window.pending.length),
      givenUp { m with registers }) :=
  Access.bind_of_eq hr (Access.bind_of_eq hpass (Access.bind_of_eq (Window.length?_eq hw) rfl))

/-- Behind any other it drops what was used up. -/
theorem runPass?_of_ok [Memory] {flush : Bool} {r r' : BitReader} {registers : Registers}
    {ending : Stream.PassEnd} {w : Window} (hr : m.window.reader? = some r)
    (hpass : Routine.pass flush r m.registers = some (.ok (ending, r'), registers))
    (hw : m.window.consume? r'.position = some w) :
    m.runPass? flush = some (.ok (Decoder.statusOf ending),
      { m with registers, window := if ending = .suspended then w.grow else w }) :=
  Access.bind_of_eq hr (Access.bind_of_eq hpass (Access.bind_of_eq hw rfl))

theorem represents_runPass [Memory] (h : m.Represents d) (hc : d.condition = .active)
    (flush : Bool) :
    ∃ m', m.runPass? flush = some ((d.runPass flush).value.2, m') ∧
      m'.Represents (d.runPass flush).value.1 := by
  obtain ⟨hreader, held, hheld, hpass⟩ := h.pass hc flush
  have hruns := Decoder.runs_runPass h.bitOffset_le flush
  generalize (d.runPass flush).value = answer at hruns ⊢
  cases hruns with
  | failed hover =>
    rw [hover] at hheld hpass
    rw [runPass?_of_error hreader hpass h.inBounds, h.pending]
    refine ⟨_, rfl, h.initialFrameSize, Nat.le_refl 0, congrArg PendingInput.clear h.pending,
      Nat.zero_le _, Nat.zero_lt_succ 7, held, hheld, ?_⟩
    cases held <;> rfl
  | suspended hover hn hconsume =>
    rw [hover] at hheld hpass
    obtain ⟨w, hw, hin, rfl, -, hoffset, hbit⟩ := h.consume hn hconsume
    rw [runPass?_of_ok hreader hpass hw]
    refine ⟨_, rfl, h.initialFrameSize, hin, rfl, hoffset, hbit, held, hheld, ?_⟩
    dsimp only
    rw [hc]
    rfl
  | completed hover hn hconsume hending =>
    rw [hover] at hheld hpass
    obtain ⟨w, hw, hin, rfl, -, hoffset, hbit⟩ := h.consume hn hconsume
    rw [runPass?_of_ok hreader hpass hw, if_neg hending, hc]
    exact ⟨_, rfl, h.initialFrameSize, hin, rfl, hoffset, hbit, held, hheld,
      congrArg (Registers.holding d.failLevel · held) (Routine.conditionBehind_ok _ _)⟩

/-- A header is read where there is a stream. -/
theorem headerParsed_eq (h : m.Represents d) : m.registers.headerParsed = d.stream.isSome := by
  obtain ⟨held, hheld, hregisters⟩ := h.registers
  have hsome := congrArg Option.isSome hheld.blank
  rw [Option.isSome_map, Option.isSome_map] at hsome
  rw [hregisters, ← hsome]
  cases held <;> rfl

theorem failed_iff (h : m.Represents d) : m.registers.failed = true ↔ d.condition = .failed := by
  obtain ⟨held, -, hregisters⟩ := h.registers
  rw [hregisters]
  exact decide_eq_true_iff

theorem quitReceived_iff (h : m.Represents d) :
    m.registers.quitReceived = true ↔ d.condition = .finished := by
  obtain ⟨held, -, hregisters⟩ := h.registers
  rw [hregisters]
  exact decide_eq_true_iff

theorem decode?_of_failed [Memory] (h : m.registers.failed = true) (capacity : Nat)
    (offered : Option Bytes) : m.decode? capacity offered = some (.error .failedBefore, m) :=
  if_pos h

theorem decode?_of_quit [Memory] (hf : ¬m.registers.failed = true)
    (hq : m.registers.quitReceived = true) (capacity : Nat) (offered : Option Bytes) :
    m.decode? capacity offered = some (.ok ⟨(offered.getD []).length, .finished⟩, m) :=
  (if_neg hf).trans (if_pos hq)

/-- Once a quit command was carried out, an answer says that the stream has ended. -/
theorem output_of_quit [Memory] {capacity : Nat} {offered : Option Bytes} {out : Output}
    {m' : Machine} (hdecode : m.decode? capacity offered = some (.ok out, m'))
    (hq : m.registers.quitReceived = true) : out = ⟨(offered.getD []).length, .finished⟩ := by
  by_cases hf : m.registers.failed = true
  · cases (decode?_of_failed hf capacity offered).symm.trans hdecode
  · cases (decode?_of_quit hf hq capacity offered).symm.trans hdecode
    rfl

/-- A call that is not refused takes what fits, and runs a pass if there is enough. -/
theorem decode?_of_append [Memory] {capacity : Nat} {offered : Option Bytes} {consumed : Nat}
    {w : Window} {ready : Bool} (hf : ¬m.registers.failed = true)
    (hq : ¬m.registers.quitReceived = true)
    (happend : m.window.append? capacity (offered.getD []) = some (.ok (consumed, w)))
    (hready : w.isReady? offered.isNone = some ready) :
    m.decode? capacity offered =
      if ready then (runPass? { m with window := w } offered.isNone).map fun answer =>
        (answer.1.map (⟨consumed, ·⟩), answer.2)
      else some (.ok ⟨consumed, .needMoreInput⟩, { m with window := w }) := by
  refine (if_neg hf).trans ((if_neg hq).trans
    (Access.bind_of_eq happend (Access.bind_of_eq hready ?_)))
  cases ready with
  | false => rfl
  | true => cases runPass? { m with window := w } offered.isNone <;> rfl

/-- A call gives up if there is no room for what it takes. -/
theorem decode?_of_denied [Memory] {capacity : Nat} {offered : Option Bytes} {fault : Fault}
    (hf : ¬m.registers.failed = true) (hq : ¬m.registers.quitReceived = true)
    (happend : m.window.append? capacity (offered.getD []) = some (.error fault))
    (hw : m.window.InBounds) : m.decode? capacity offered =
      some (.error (fault.reported m.window.pending.length), m.givenUp) :=
  (if_neg hf).trans ((if_neg hq).trans (Access.bind_of_eq happend
    (Access.bind_of_eq (Access.bind_of_eq (Window.length?_eq hw) rfl) rfl)))

/-- The machine takes the bytes that the decoder takes. -/
theorem Represents.append [Memory] (h : m.Represents d) (capacity : Nat) (bytes : Bytes) :
    ∃ w, m.window.append? capacity bytes =
        some ((d.input.append bytes).map fun x => (x.1, w)) ∧
      Represents { m with window := w } { d with input := (d.input.fill bytes).2 } ∧
      ∀ flush, w.isReady? flush = some (w.pending.isReady flush) := by
  obtain ⟨w, hpending, hw, happend⟩ := Window.append?_eq h.inBounds capacity bytes
  rw [h.pending] at happend hpending
  refine ⟨w, happend, ⟨h.initialFrameSize, hw, hpending, ?_, h.bitOffset_lt, h.registers⟩,
    Window.isReady?_eq hw⟩
  rw [PendingInput.length_fill]
  exact Nat.le_trans h.bitOffset_le (Nat.mul_le_mul_left 8 (Nat.le_add_right _ _))

theorem Represents.givenUp (h : m.Represents d) (hc : d.condition = .active) :
    m.givenUp.Represents { d with input := d.input.clear, condition := .failed } := by
  obtain ⟨held, hheld, hregisters⟩ := h.registers
  refine ⟨h.initialFrameSize, Nat.le_refl 0, congrArg PendingInput.clear h.pending, Nat.zero_le _,
    Nat.zero_lt_succ 7, held, hheld, ?_⟩
  rw [Machine.givenUp, hregisters, hc]
  cases held <;> rfl

/-- **The machine answers as the decoder does**, whatever its buffer has memory for. -/
theorem Represents.decode [Memory] (h : m.Represents d) (capacity : Nat) (offered : Option Bytes) :
    ∃ m', m.decode? capacity offered = some ((d.decode offered).value.2, m') ∧
      m'.Represents (d.decode offered).value.1 := by
  have hfailed := failed_iff h
  have hquit := quitReceived_iff h
  cases hc : d.condition with
  | failed =>
    rw [Decoder.value_decode_of_failed hc]
    exact ⟨m, decode?_of_failed (hfailed.2 hc) capacity offered, h⟩
  | finished =>
    rw [hc] at hfailed
    rw [Decoder.value_decode_of_finished hc]
    exact ⟨m, decode?_of_quit (fun hf => by cases hfailed.1 hf) (hquit.2 hc) capacity offered, h⟩
  | active =>
    rw [hc] at hfailed hquit
    have hf : ¬m.registers.failed = true := fun hf => by cases hfailed.1 hf
    have hq : ¬m.registers.quitReceived = true := fun hq => by cases hquit.1 hq
    obtain ⟨w, happend, hmiddle, hready⟩ := h.append capacity (offered.getD [])
    have hpending : w.pending = (d.input.fill (offered.getD [])).2 := hmiddle.pending
    rcases d.input.append_cases (offered.getD []) with hroom | hroom
    case inr =>
      rw [hroom] at happend
      rw [decode?_of_denied hf hq happend h.inBounds, Decoder.value_decode_of_denied hc hroom]
      exact ⟨_, rfl, h.givenUp hc⟩
    rw [hroom] at happend
    rw [decode?_of_append hf hq happend (hready _), Decoder.value_decode hc _ hroom, hpending]
    dsimp only
    split
    · obtain ⟨m', hpass, hm'⟩ := represents_runPass hmiddle hc offered.isNone
      rw [hpass]
      exact ⟨m', rfl, hm'⟩
    · exact ⟨_, rfl, hmiddle⟩

/-- What the machine answers is an answer of the decoder. -/
theorem Represents.calls [Memory] (h : m.Represents d) {capacity : Nat} {offered : Option Bytes}
    {answer : Except Fault Output} {m' : Machine}
    (hdecode : m.decode? capacity offered = some (answer, m')) :
    ∃ d', d.Calls offered (d', answer) ∧ m'.Represents d' := by
  obtain ⟨m₁, hdecode₁, hm'⟩ := h.decode capacity offered
  cases hdecode₁.symm.trans hdecode
  exact ⟨_, Decoder.calls_decode (fun _ => h.bitOffset_le) offered, hm'⟩

theorem condition_eq_active_iff (h : m.Represents d) : d.condition = .active ↔
    m.registers.failed = false ∧ m.registers.quitReceived = false := by
  have hfailed := failed_iff h
  have hquit := quitReceived_iff h
  cases hc : d.condition <;> simp [hc] at hfailed hquit <;> simp [hfailed, hquit]

/-- A call that is answered while the stream goes on has taken what fits, and has run a pass if
there is enough. -/
theorem Represents.ran [Memory] (h : m.Represents d) {capacity : Nat} {offered : Option Bytes}
    {out : Output} {m' : Machine} (hdecode : m.decode? capacity offered = some (.ok out, m'))
    (hq : ¬m.registers.quitReceived = true) :
    d.condition = .active ∧ ∃ w, m.window.append? capacity (offered.getD []) =
        some (.ok (out.consumed, w)) ∧ out.consumed = (d.input.fill (offered.getD [])).1 ∧
      Represents { m with window := w }
        { d with input := (d.input.fill (offered.getD [])).2 } ∧
      if w.pending.isReady offered.isNone then
        runPass? { m with window := w } offered.isNone = some (.ok out.status, m')
      else out.status = .needMoreInput ∧ m' = { m with window := w } := by
  have hf : ¬m.registers.failed = true := fun hf => by
    cases (decode?_of_failed hf _ _).symm.trans hdecode
  have hactive := (condition_eq_active_iff h).2 ⟨Bool.eq_false_iff.2 hf, Bool.eq_false_iff.2 hq⟩
  obtain ⟨w, happend, hw, hready⟩ := h.append capacity (offered.getD [])
  rcases d.input.append_cases (offered.getD []) with hroom | hroom
  all_goals rw [hroom] at happend
  case inr => cases (decode?_of_denied hf hq happend h.inBounds).symm.trans hdecode
  rw [decode?_of_append hf hq happend (hready _)] at hdecode
  refine ⟨hactive, w, ?_⟩
  by_cases hfull : w.pending.isReady offered.isNone = true
  · rw [if_pos hfull] at hdecode ⊢
    obtain ⟨⟨answer, m₁⟩, hpass, heq⟩ := Option.map_eq_some_iff.1 hdecode
    cases answer with
    | error fault => cases heq
    | ok status =>
      cases heq
      exact ⟨happend, rfl, hw, hpass⟩
  · rw [if_neg hfull] at hdecode ⊢
    cases hdecode
    exact ⟨happend, rfl, hw, rfl, rfl⟩

theorem Represents.take [Memory] {t : Session} (h : m.Represents t.decoder) (turn : Turn) :
    ∃ m', m.take? turn = some m' ∧ m'.Represents (t.after turn.call).decoder := by
  obtain ⟨call, capacity⟩ := turn
  cases call with
  | decode offered =>
    obtain ⟨m', hdecode, hm'⟩ := h.decode capacity offered
    refine ⟨m', ?_, hm'⟩
    show (m.decode? capacity offered).map _ = _
    rw [hdecode]
    rfl
  | setFailLevel failLevel =>
    obtain ⟨hm, hw, hpending, hoffset, hbit, held, hheld, hregisters⟩ := h
    refine ⟨_, rfl, hm, hw, hpending, hoffset, hbit, held, hheld, ?_⟩
    rw [setFailLevel, hregisters]
    cases held <;> rfl
  | reset =>
    obtain ⟨held, -, hregisters⟩ := h.registers
    have hlevel : m.registers.failLevel = t.decoder.failLevel := by
      rw [hregisters]
      cases held <;> rfl
    refine ⟨_, rfl, ?_⟩
    rw [reset, h.initialFrameSize, hlevel]
    exact represents_start _ _

/-- **The machine never breaks down.** -/
theorem Represents.run [Memory] {t : Session} (h : m.Represents t.decoder) (turns : List Turn) :
    ∃ m', m.run? turns = some m' ∧ m'.Represents (t.run (turns.map Turn.call)).decoder := by
  induction turns generalizing m t with
  | nil => exact ⟨m, rfl, h⟩
  | cons turn turns ih =>
    obtain ⟨m₁, htake, hm₁⟩ := h.take turn
    obtain ⟨m', hrun, hm'⟩ := ih hm₁
    exact ⟨m', Access.bind_of_eq htake hrun, hm'⟩

end Machine

end LosslessAudio
