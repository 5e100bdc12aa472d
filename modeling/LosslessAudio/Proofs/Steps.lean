import LosslessAudio.Proofs.Blocks
import LosslessAudio.Proofs.Transcript

/-!
# What a stream goes through

The decoder keeps of every block only what the next ones need.  To speak of all blocks of a stream
one has to write them down: `Block` is what an audio command decoded, and `Stream.block?` the block
that the next command will decode.

* `Stream.Step` — everything that one command can do to a stream, with the block that it decodes.
  `step_of_next?` says that the decoder does nothing else.
* `Stream.Steps` — the same for any number of commands, with all their blocks and frames.
  `steps_runCommands` says that a pass goes through such steps, however it ends.

What holds at the start of a stream and is kept by each kind of step therefore holds of every state
that a decoder can get into.
-/

set_option autoImplicit false

namespace LosslessAudio

/-! ## Blocks -/

/-- A block that an audio command decoded. -/
structure Block where
  channel : Nat
  /-- Its samples, as they are before the dropped low bits are given back. -/
  samples : List Int32
  bitshift : Nat
  /-- How it was predicted; a block of zeros looks at nothing. -/
  predictor : Predictor
  /-- The offset that its channel had. -/
  offset : Int32

namespace Block

variable (b : Block)

/-- The samples with the dropped low bits. -/
def shifted : List Int32 :=
  b.samples.map fun x => Sample.shiftLeft x b.bitshift

/-- The context of a channel behind the block. -/
def contextAfter (context : List Int32) : List Int32 :=
  (b.predictor.removeOffset b.offset context ++ b.samples).drop b.samples.length

theorem length_contextAfter (context : List Int32) :
    (b.contextAfter context).length = context.length := by
  rw [contextAfter, List.length_drop, List.length_append, Predictor.length_removeOffset,
    Nat.add_sub_cancel]

@[simp] theorem length_shifted : b.shifted.length = b.samples.length :=
  List.length_map _

end Block

/-- The blocks of channel `c`, in order. -/
def blocksOfChannel (c : Nat) (blocks : List Block) : List Block :=
  blocks.filter (·.channel = c)

theorem blocksOfChannel_append (c : Nat) (blocks more : List Block) :
    blocksOfChannel c (blocks ++ more) = blocksOfChannel c blocks ++ blocksOfChannel c more :=
  List.filter_append _ _

theorem blocksOfChannel_append_singleton (c : Nat) (blocks : List Block) (b : Block) :
    blocksOfChannel c (blocks ++ [b]) =
      if b.channel = c then blocksOfChannel c blocks ++ [b] else blocksOfChannel c blocks := by
  rw [blocksOfChannel_append]
  by_cases h : b.channel = c <;> simp [h, blocksOfChannel]

namespace Stream

/-- How an audio command predicts its block. -/
def readPredictor (s : Stream) (c : Command) (r : BitReader) : Except Fault Predictor :=
  if c = .zero then .ok (.linear [])
  else do
    let (_, r) ← readResidualParameter s.info.version r
    let (predictor, _) ← Predictor.read c s.info.contextLength r
    return predictor

/-- The offset of the next block. -/
def currentOffset (s : Stream) : Int32 :=
  s.round.current.offset s.info.version s.info.meanCount s.bitshift

/-- The block of an audio command whose code was read. -/
def decodedBlock (s : Stream) (c : Command) (r : BitReader) : Except Fault Block := do
  let predictor ← s.readPredictor c r
  let (h, _) ← s.readBlock c s.round.current r
  return {
    channel := s.round.index
    samples := h.current s.blockSize
    bitshift := s.bitshift
    predictor
    offset := s.currentOffset }

/-- The block that the next command decodes, if it is an audio command. -/
def block? (s : Stream) (r : BitReader) : Option Block :=
  match Command.read r with
  | .ok (c, r) => if c.isAudio then (s.decodedBlock c r).toOption else none
  | .error _ => none

/-! ### What reading a block comes to -/

theorem removeOffset_linear_nil (offset : Int32) (context : List Int32) :
    (Predictor.linear []).removeOffset offset context = context := by
  have horder : (Predictor.linear []).order = 0 := rfl
  rw [Predictor.removeOffset, horder, Nat.sub_zero, List.take_length, List.drop_length]
  exact List.append_nil _

theorem length_of_extend {p : Predictor} {base parameter : Int32} {r r' : BitReader}
    {past past' : List Int32} {n : Nat} (h : p.extend base parameter r past n = .ok (past', r')) :
    past'.length = n + past.length := by
  induction n generalizing r past with
  | zero => cases h; exact (Nat.zero_add _).symm
  | succ n ih =>
    obtain ⟨⟨x, r₁⟩, -, h⟩ := bind_eq_ok.1 h
    rw [ih h, List.length_cons]
    omega

/-- A block is written behind a context that has lost the offset where the predictor looked. -/
theorem eq_of_decodeBlock {p : Predictor} {h h' : ChannelHistory} {blockSize : Nat}
    {parameter offset bias : Int32} {r r' : BitReader}
    (hd : p.decodeBlock h blockSize parameter offset bias r = .ok (h', r')) :
    ∃ samples : List Int32, samples.length = blockSize ∧
      h' = { h with context := p.removeOffset offset h.context }.withBlock samples := by
  obtain ⟨⟨past, r₁⟩, hextend, hd⟩ := bind_eq_ok.1 hd
  cases hd
  refine ⟨_, ?_, rfl⟩
  rw [List.length_map, List.length_reverse, List.length_take, length_of_extend hextend]
  exact Nat.min_eq_left (Nat.le_add_right _ _)

theorem eq_of_readBlock {s : Stream} {c : Command} {h' : ChannelHistory} {r r' : BitReader}
    (hb : s.readBlock c s.round.current r = .ok (h', r')) :
    ∃ p samples, s.readPredictor c r = .ok p ∧ samples.length = s.blockSize ∧
      h' = { s.round.current with
        context := p.removeOffset s.currentOffset s.round.current.context }.withBlock samples := by
  rw [readBlock] at hb
  rw [readPredictor]
  by_cases hc : c = .zero
  · rw [if_pos hc] at hb ⊢
    cases hb
    exact ⟨_, _, rfl, List.length_replicate, by rw [removeOffset_linear_nil]⟩
  · rw [if_neg hc] at hb ⊢
    obtain ⟨⟨parameter, r₁⟩, hparameter, hb⟩ := bind_eq_ok.1 hb
    obtain ⟨⟨p, r₂⟩, hpredictor, hb⟩ := bind_eq_ok.1 hb
    obtain ⟨samples, hlength, hh⟩ := eq_of_decodeBlock (lift_read_eq_ok.1 hb)
    refine ⟨p, samples, ?_, hlength, hh⟩
    rw [hparameter, ok_bind]
    dsimp only
    rw [hpredictor]
    rfl

/-- The history of the current channel behind a block. -/
def historyAfter (s : Stream) (b : Block) : ChannelHistory :=
  ChannelHistory.withBlock
    { s.round.current with
      context := b.contextAfter s.round.current.context
      means := s.round.current.meansAfter s.info.meanCount
        (ChannelHistory.meanOf b.samples s.info.version s.bitshift) }
    b.shifted

/-- The state behind a block. -/
def behind (s : Stream) (b : Block) : Stream :=
  { s with round := s.round.next (s.historyAfter b) }

/-- What a block brings about. -/
def effectOf (s : Stream) (b : Block) : Command.Effect :=
  if s.round.isLast then .frame (Frame.ofBlocks (s.behind b).round.channels s.blockSize)
  else .silent

/-- A block of the channel whose turn it is, as long as blocks are at the time. -/
structure Takes (s : Stream) (b : Block) : Prop where
  channel : b.channel = s.round.index
  length : b.samples.length = s.blockSize
  bitshift : b.bitshift = s.bitshift
  offset : b.offset = s.currentOffset

/-- Everything that a command can do to a stream, with the block that it decodes. -/
inductive Step (s : Stream) : Option Block → Command.Effect → Stream → Prop
  | audio (b : Block) (h : s.Takes b) : s.Step (some b) (s.effectOf b) (s.behind b)
  | verbatim : s.Step none .silent s
  | bitshift (n : Nat) (h : n ≤ maxBitshift) : s.Step none .silent { s with bitshift := n }
  | blockSize (n : Nat) (hpos : 0 < n) (hle : n ≤ s.blockSize) :
    s.Step none .pause { s with blockSize := n }
  | quit : s.Step none .quit s

/-! ### One command -/

theorem eq_of_blockEffect [Memory] {s : Stream} {round : Round} {e : Command.Effect}
    (h : s.blockEffect round = .ok e) :
    e = if s.round.isLast then .frame (Frame.ofBlocks round.channels s.blockSize)
      else .silent := by
  rw [blockEffect] at h
  split at h
  · rename_i hlast
    rw [if_pos hlast]
    rw [Frame.interleave] at h
    cases hroom : Memory.reserve .frame (round.channels.length * s.blockSize) with
    | error fault => rw [hroom] at h; cases h
    | ok u => rw [hroom] at h; cases h; rfl
  · rename_i hlast
    rw [if_neg hlast]
    cases h
    rfl

theorem step_of_decodeChannel [Memory] {s s' : Stream} {c : Command} {e : Command.Effect}
    {r r' : BitReader} (h : s.decodeChannel c r = .ok (e, s', r')) :
    ∃ b, s.decodedBlock c r = .ok b ∧ s.Step (some b) e s' := by
  obtain ⟨⟨h', r₁⟩, hb, h⟩ := bind_eq_ok.1 h
  obtain ⟨effect, heffect, h⟩ := bind_eq_ok.1 h
  cases h
  obtain ⟨p, samples, hp, hlength, rfl⟩ := eq_of_readBlock hb
  dsimp only at heffect ⊢
  rw [settleBlock_withBlock hlength] at heffect ⊢
  have hcurrent : ({ s.round.current with
      context := p.removeOffset s.currentOffset s.round.current.context }.withBlock
        samples).current s.blockSize = samples := by
    rw [← hlength]
    exact ChannelHistory.current_withBlock _ _
  refine ⟨⟨s.round.index, samples, s.bitshift, p, s.currentOffset⟩, ?_, ?_⟩
  · rw [decodedBlock, hp, ok_bind, hb, ok_bind]
    dsimp only
    rw [hcurrent]
    rfl
  · rw [eq_of_blockEffect heffect]
    exact .audio ⟨s.round.index, samples, s.bitshift, p, s.currentOffset⟩ ⟨rfl, hlength, rfl, rfl⟩

/-- **A command does nothing else.** -/
theorem step_of_next? [Memory] {s s' : Stream} {e : Command.Effect} {r r' : BitReader}
    (h : s.next? r = some ((e, s'), r')) : s.Step (s.block? r) e s' := by
  obtain ⟨-, hx⟩ := next?_eq_some.1 h
  obtain ⟨c, r₁, hc, he⟩ := carryOut_eq_ok.1 hx
  rw [block?, hc]
  dsimp only
  by_cases haudio : c.isAudio = true
  · rw [outcome_execute_of_isAudio haudio] at he
    obtain ⟨b, hb, hstep⟩ := step_of_decodeChannel he
    rw [if_pos haudio, hb]
    exact hstep
  · rw [if_neg haudio]
    cases c
    case verbatim =>
      rw [outcome_execute_verbatim] at he
      obtain ⟨_, -, he⟩ := bind_eq_ok.1 he
      cases he
      exact .verbatim
    case bitshift =>
      rw [outcome_execute_bitshift] at he
      obtain ⟨⟨n, r₂⟩, hn, he⟩ := bind_eq_ok.1 he
      cases he
      obtain ⟨⟨k, r₃⟩, -, hn⟩ := bind_eq_ok.1 hn
      obtain ⟨_, hle, hn⟩ := bind_eq_ok.1 hn
      cases hn
      exact .bitshift _ (ensure_eq_ok.1 hle)
    case blockSize =>
      rw [outcome_execute_blockSize] at he
      obtain ⟨⟨n, r₂⟩, hn, he⟩ := bind_eq_ok.1 he
      cases he
      obtain ⟨⟨k, r₃⟩, -, hn⟩ := bind_eq_ok.1 hn
      obtain ⟨_, hle, hn⟩ := bind_eq_ok.1 hn
      obtain ⟨_, hpos, hn⟩ := bind_eq_ok.1 hn
      cases hn
      exact .blockSize _ (ensure_eq_ok.1 hpos).1 (ensure_eq_ok.1 hle)
    case quit =>
      rw [outcome_execute_quit] at he
      cases he
      exact .quit
    all_goals exact absurd rfl haudio

/-! ## Any number of commands -/

/-- The blocks that a pass over `r` decodes, in order. -/
def blocksAhead [Memory] (s : Stream) (r : BitReader) : List Block :=
  match _h : s.next? r with
  | none => []
  | some ((effect, s'), r') =>
    (s.block? r).toList ++ if effect = .silent then s'.blocksAhead r' else []
termination_by r.available
decreasing_by exact available_lt_of_next? ‹_›

/-- Any number of commands, with the blocks that they decode and the frames that they complete. -/
inductive Steps (s : Stream) : List Block → List Frame → Stream → Prop
  | refl : s.Steps [] [] s
  | step {blocks : List Block} {frames : List Frame} {s' s'' : Stream} {b : Option Block}
      {e : Command.Effect} (h : s.Steps blocks frames s') (h' : s'.Step b e s'') :
      s.Steps (blocks ++ b.toList) (frames ++ e.frames) s''

theorem Steps.single {s s' : Stream} {b : Option Block} {e : Command.Effect} (h : s.Step b e s') :
    s.Steps b.toList e.frames s' :=
  .step .refl h

theorem Steps.trans {s s' s'' : Stream} {blocks blocks' : List Block}
    {frames frames' : List Frame} (h : s.Steps blocks frames s')
    (h' : s'.Steps blocks' frames' s'') : s.Steps (blocks ++ blocks') (frames ++ frames') s'' := by
  induction h' with
  | refl =>
    rw [List.append_nil, List.append_nil]
    exact h
  | step _ hstep ih =>
    rw [← List.append_assoc, ← List.append_assoc]
    exact .step ih hstep

theorem blocksAhead_of_stuck [Memory] {s : Stream} {r : BitReader} (h : s.next? r = none) :
    s.blocksAhead r = [] := by
  rw [blocksAhead]
  split
  · rfl
  · rename_i h'
    rw [h] at h'
    cases h'

theorem blocksAhead_of_next? [Memory] {s s' : Stream} {e : Command.Effect} {r r' : BitReader}
    (h : s.next? r = some ((e, s'), r')) :
    s.blocksAhead r = (s.block? r).toList ++ if e = .silent then s'.blocksAhead r' else [] := by
  rw [blocksAhead]
  split
  · rename_i h'
    rw [h] at h'
    cases h'
  · rename_i h'
    rw [h] at h'
    cases h'
    rfl

/-- The frame that a pass completes, if it ends without a fault. -/
def outcomeFrames : Except Fault (PassEnd × BitReader) → List Frame
  | .ok (ending, _) => ending.frames
  | .error _ => []

/-- Where there is no command that can be carried out, a pass leaves everything as it is. -/
theorem value_runCommands_of_stuck [Memory] {s : Stream} {r : BitReader} (h : s.next? r = none)
    (failLevel : Level) (flush : Bool) :
    (s.runCommands failLevel flush r).value.stream = s ∧
      outcomeFrames (s.runCommands failLevel flush r).value.outcome = [] := by
  cases flush with
  | true =>
    obtain ⟨hs, hok⟩ := runCommands_of_stuck h failLevel
    refine ⟨hs, ?_⟩
    cases houtcome : (s.runCommands failLevel true r).value.outcome with
    | error fault => rfl
    | ok x =>
      obtain ⟨ending, r'⟩ := x
      obtain ⟨rfl, -⟩ := hok houtcome
      rfl
  | false =>
    by_cases hlen : r.available < Command.minimalBits
    · rw [value_runCommands_of_short hlen, if_neg (by decide)]
      exact ⟨rfl, rfl⟩
    · have hlen := Nat.le_of_not_lt hlen
      obtain ⟨fault, hx⟩ := exists_fault_of_stuck h hlen
      rw [value_runCommands_of_error hlen hx]
      cases fault.isOverread <;> exact ⟨rfl, rfl⟩

/-- **A pass goes through steps**, those of the commands that it completes. -/
theorem steps_runCommands [Memory] (s : Stream) (failLevel : Level) (flush : Bool) (r : BitReader) :
    let pass := (s.runCommands failLevel flush r).value
    s.Steps (s.blocksAhead r) (outcomeFrames pass.outcome) pass.stream := by
  dsimp only
  cases h : s.next? r with
  | none =>
    obtain ⟨hstream, hframes⟩ := value_runCommands_of_stuck h failLevel flush
    rw [blocksAhead_of_stuck h, hstream, hframes]
    exact .refl
  | some x =>
    obtain ⟨⟨e, s'⟩, r'⟩ := x
    have hstep := Steps.single (step_of_next? h)
    have := available_lt_of_next? h
    rw [value_runCommands_of_next? h, blocksAhead_of_next? h]
    cases e with
    | silent => exact hstep.trans (steps_runCommands s' failLevel flush r')
    | pause | quit | frame f =>
      rw [if_neg (by rintro ⟨⟩), List.append_nil]
      exact hstep
termination_by r.available

end Stream

end LosslessAudio
