import LosslessAudio.Proofs.Machine
import LosslessAudio.Proofs.Traces

/-!
# What the machine makes of a stream

`Registers.ofStream` puts a stream into registers.  On these, each routine of a command does what
the function of the decoder does that it is written after; that it has an answer at all is due to
the bounds on the stream (`Stream.Bounded`).  There is a lemma for each routine and each way it can
end, named after the routine.

* `on_readBlock_of_ok`, `on_settleBlock`, `on_passTurn` — the parts of an audio command.
* `on_carryOut_of_ok` — a command that is completed leaves the stream that it leaves in the decoder.
* `on_carryOut_of_error` — one that fails leaves the stream that it began with, but for the block of
  the channel whose turn it is.
-/

set_option autoImplicit false

namespace LosslessAudio

/-! ## Streams in registers -/

/-- The registers that hold a stream. -/
def Registers.ofStream (failLevel : Level) (s : Stream) : Registers :=
  { failLevel
    info := some s.info
    channels := s.info.channels
    blockSize := s.blockSize
    version := s.info.version
    contextLength := s.info.contextLength
    meanCount := s.info.meanCount
    bitshift := s.bitshift
    bias := s.info.predictionBias
    currentChannel := s.round.index
    headerParsed := true
    quitReceived := false
    failed := false
    rows := s.round.channels.map ChannelHistory.row }

/-- A stream with another history of the channel whose turn it is. -/
def Stream.withCurrent (s : Stream) (h : ChannelHistory) : Stream :=
  { s with round := { s.round with current := h } }

/-- The bounds on a stream and on its parameters. -/
structure Stream.Bounded (s : Stream) : Prop extends s.Sound where
  info : s.info.Sound

namespace Routine

open Registers

variable {failLevel : Level} {s : Stream}

theorem on_lift_of_eq {α : Type} {x : Option α} {a : α} (h : x = some a) (s : Registers) :
    (liftM x : Routine α).on s = some (.ok a, s) := by
  rw [h]
  rfl

theorem on_lift {α : Type} {x y : Except Fault α} (h : x = y) (s : Registers) :
    (liftM x : Routine α).on s = some (y, s) := by
  rw [h]
  rfl

theorem on_lift_read {α : Type} {x : Except ReadFault α} {y : Except Fault α}
    (h : (liftM x : Except Fault α) = y) (s : Registers) :
    (liftM x : Routine α).on s = some (y, s) := by
  rw [← h]
  rfl

/-- The row of the channel whose turn it is, in the list of all rows. -/
theorem on_row (failLevel : Level) (s : Stream) :
    row.on (ofStream failLevel s) = some (.ok s.round.current.row, ofStream failLevel s) := by
  refine on_bind_of_ok rfl (on_lift_of_eq ?_ _)
  show (s.round.channels.map ChannelHistory.row)[s.round.index]? = _
  rw [List.getElem?_map, Round.getElem?_channels_index]
  rfl

/-- To put a row back is to change the history of that channel. -/
theorem on_putRow (failLevel : Level) (s : Stream) (h : ChannelHistory) :
    (putRow h.row).on (ofStream failLevel s) =
      some (.ok (), ofStream failLevel (s.withCurrent h)) := by
  have hput := Access.put?_append (s.round.done.map ChannelHistory.row) s.round.current.row h.row
    (s.round.waiting.map ChannelHistory.row)
  rw [List.length_map, ← List.map_cons, ← List.map_append, ← List.map_cons, ← List.map_append]
    at hput
  exact on_bind_of_ok rfl (on_bind_of_ok (on_lift_of_eq hput _) rfl)

/-! ### The block of an audio command -/

/-- As many coefficients are read as were asked for. -/
theorem length_of_signedRiceMany {k : Int32} {r r' : BitReader} {n : Nat} {xs : List Int32}
    (h : r.signedRiceMany k n = .ok (xs, r')) : xs.length = n := by
  suffices ∀ read, BitReader.signedRiceMany.go k r read n = .ok (xs, r') →
      xs.length = read.length + n by
    rw [this [] h, List.length_nil, Nat.zero_add]
  clear h
  induction n generalizing r with
  | zero =>
    rintro read h
    cases h
    exact List.length_reverse
  | succ n ih =>
    intro read h
    obtain ⟨⟨x, r₁⟩, -, h⟩ := bind_eq_ok.1 h
    rw [ih _ h, List.length_cons]
    omega

/-- A predictor that was read looks no further back than samples are kept. -/
theorem order_le_of_read {c : Command} {kept : Nat} {r r' : BitReader} {p : Predictor}
    (h : Predictor.read c kept r = .ok (p, r')) (hkept : StreamInfo.minimalContext ≤ kept) :
    p.order ≤ kept := by
  rw [Predictor.read] at h
  split at h
  · rename_i order _
    cases h
    have hfixed : ∀ order : Fin 4, (Predictor.fixed order).order ≤ StreamInfo.minimalContext := by
      decide
    exact Nat.le_trans (hfixed order) hkept
  · obtain ⟨⟨order, r₁⟩, -, h⟩ := bind_eq_ok.1 h
    obtain ⟨_, hle, h⟩ := bind_eq_ok.1 h
    obtain ⟨⟨coefficients, r₂⟩, hcoefficients, h⟩ := bind_eq_ok.1 h
    cases h
    exact Nat.le_trans (Nat.le_of_eq (length_of_signedRiceMany (lift_read_eq_ok.1 hcoefficients)))
      (ensure_eq_ok.1 hle)

theorem on_offset (hs : s.Bounded) (s' : Registers) :
    (liftM (s.round.current.row.offset? s.info.version s.info.meanCount s.bitshift) :
      Routine Int32).on s' = some (.ok s.currentOffset, s') :=
  on_lift_of_eq (ChannelHistory.offset?_row
    (hs.histories _ s.round.current_mem_channels).means _ _) s'

theorem blockSize_le_length (hs : s.Bounded) : s.blockSize ≤ s.round.current.block.length := by
  rw [(hs.histories _ s.round.current_mem_channels).block]
  exact hs.blockSize_le

/-- A block of zeros overwrites what was there, without a read. -/
theorem on_readBlock_zero (failLevel : Level) (hs : s.Bounded) (r : BitReader) :
    (readBlock .zero r).on (ofStream failLevel s) = some (.ok r, ofStream failLevel
      (s.withCurrent (s.round.current.withBlock (List.replicate s.blockSize 0)))) := by
  have hmodify := ChannelHistory.modifyBlock?_row (fun _ => 0) (blockSize_le_length hs)
  rw [List.map_const', ChannelHistory.length_current (blockSize_le_length hs)] at hmodify
  refine on_bind_of_ok rfl (on_bind_of_ok (a := (0, r)) rfl ?_)
  refine on_bind_of_ok (on_row failLevel s) (on_bind_of_ok (on_offset hs _) ?_)
  refine on_bind_of_ok (on_lift_of_eq hmodify _) ?_
  exact on_bind_of_ok (on_putRow failLevel s _) rfl

/-- **Reading a block in place.** -/
theorem on_readBlock_of_ok (failLevel : Level) (hs : s.Bounded) {c : Command}
    {h : ChannelHistory} {r r' : BitReader} (hb : s.readBlock c s.round.current r = .ok (h, r')) :
    (readBlock c r).on (ofStream failLevel s) =
      some (.ok r', ofStream failLevel (s.withCurrent h)) := by
  rw [Stream.readBlock] at hb
  split at hb
  · rename_i hzero
    cases hb
    rw [hzero]
    exact on_readBlock_zero failLevel hs r
  · rename_i hzero
    obtain ⟨⟨parameter, r₁⟩, hparameter, hb⟩ := bind_eq_ok.1 hb
    obtain ⟨⟨p, r₂⟩, hpredictor, hb⟩ := bind_eq_ok.1 hb
    have hcontext := (hs.histories _ s.round.current_mem_channels).context
    have horder := order_le_of_read hpredictor s.info.minimalContext_le
    have hblock := Predictor.decodeBlock?_of_ok (hcontext ▸ horder) (blockSize_le_length hs)
      (lift_read_eq_ok.1 hb)
    have hparameter' : (liftM (readParameter s.info.version c r) : Except Fault _) =
        .ok (parameter, r₁) := by rw [readParameter, if_neg hzero, hparameter]
    refine on_bind_of_ok rfl (on_bind_of_ok (on_lift_read hparameter' _) ?_)
    refine on_bind_of_ok (on_row failLevel s) (on_bind_of_ok (on_offset hs _) ?_)
    rw [if_neg hzero]
    refine on_bind_of_ok (on_lift hpredictor _) (on_bind_of_ok (on_lift_of_eq hblock _) ?_)
    exact on_bind_of_ok (on_putRow failLevel s _) rfl

theorem withCurrent_self (s : Stream) : s.withCurrent s.round.current = s := rfl

/-- **A block that cannot be read leaves its traces in the block of its channel only.** -/
theorem on_readBlock_of_error (failLevel : Level) (hs : s.Bounded) {c : Command} {r : BitReader}
    {fault : Fault} (hb : s.readBlock c s.round.current r = .error fault) :
    ∃ block, block.length = s.round.current.block.length ∧
      (readBlock c r).on (ofStream failLevel s) =
        some (.error fault, ofStream failLevel
          (s.withCurrent { s.round.current with block })) := by
  rw [Stream.readBlock] at hb
  split at hb
  · cases hb
  rename_i hzero
  have hparameter : readParameter s.info.version c r =
      Stream.readResidualParameter s.info.version r := if_neg hzero
  rw [← hparameter] at hb
  rcases bind_eq_error.1 hb with hb | ⟨⟨parameter, r₁⟩, hok, hb⟩
  · exact ⟨s.round.current.block, rfl, on_bind_of_ok rfl (on_bind_of_error (on_lift_read hb _))⟩
  rcases bind_eq_error.1 hb with hb | ⟨⟨p, r₂⟩, hpredictor, hb⟩
  · refine ⟨s.round.current.block, rfl, on_bind_of_ok rfl (on_bind_of_ok (on_lift_read hok _) ?_)⟩
    refine on_bind_of_ok (on_row failLevel s) (on_bind_of_ok (on_offset hs _) ?_)
    rw [if_neg hzero]
    exact on_bind_of_error (on_lift hb _)
  · have hcontext := (hs.histories _ s.round.current_mem_channels).context
    have horder := order_le_of_read hpredictor s.info.minimalContext_le
    obtain ⟨e, hd, hfault⟩ := lift_read_eq_error.1 hb
    obtain ⟨block, hlength, hblock⟩ := Predictor.decodeBlock?_of_error (hcontext ▸ horder)
      (blockSize_le_length hs) hd
    refine ⟨block, hlength, on_bind_of_ok rfl (on_bind_of_ok (on_lift_read hok _) ?_)⟩
    refine on_bind_of_ok (on_row failLevel s) (on_bind_of_ok (on_offset hs _) ?_)
    rw [if_neg hzero]
    refine on_bind_of_ok (on_lift hpredictor _) (on_bind_of_ok (on_lift_of_eq hblock _) ?_)
    refine on_bind_of_ok (on_putRow failLevel s _) ?_
    rw [hfault]
    rfl

/-! ### What follows a block -/

theorem blockSize_lt (hs : s.Bounded) : s.blockSize < 65536 :=
  Nat.lt_of_le_of_lt (Nat.le_trans hs.blockSize_le hs.info.blockSize_le) (by decide)

/-- The mean of a block is never divided by zero. -/
theorem ofNat_blockSize_ne_zero (hs : s.Bounded) : Int32.ofNat s.blockSize ≠ 0 := by
  have hpos := hs.blockSize_pos
  have hlt := blockSize_lt hs
  intro hzero
  have htoInt := congrArg Int32.toInt hzero
  rw [Int32.toInt_ofNat_of_lt (by omega)] at htoInt
  exact absurd htoInt (by rw [Int32.toInt_zero]; omega)

/-- Mean, context and low bits, each in its part of the row. -/
theorem on_settleBlock (failLevel : Level) (hs : s.Bounded) :
    settleBlock.on (ofStream failLevel s) =
      some (.ok (), ofStream failLevel (s.withCurrent (s.settleBlock s.round.current))) := by
  have hmeans := (hs.histories _ s.round.current_mem_channels).means
  have hn := blockSize_le_length hs
  have hbitshift : s.bitshift < 32 := Nat.lt_succ_of_le hs.bitshift_le
  have hpush := ChannelHistory.pushMean?_row hmeans hn (ofNat_blockSize_ne_zero hs) hbitshift
    s.info.version
  have hblock : (s.round.current.pushMean s.info.version s.info.meanCount s.blockSize
      s.bitshift).block = s.round.current.block := by
    rw [ChannelHistory.pushMean]
    split <;> rfl
  rw [← hblock] at hn
  have hcarry := ChannelHistory.carryOver?_row hn
  have hshift := ChannelHistory.shiftBlock?_row (h := ChannelHistory.carryOver _ s.blockSize) hn
    hbitshift
  refine on_bind_of_ok rfl (on_bind_of_ok (on_row failLevel s) ?_)
  refine on_bind_of_ok (on_lift_of_eq hpush _) (on_bind_of_ok (on_lift_of_eq hcarry _) ?_)
  exact on_bind_of_ok (on_lift_of_eq hshift _) (on_putRow failLevel s _)

/-- The samples of a frame are where they are looked for. -/
theorem interleave?_row (hs : List ChannelHistory) {n : Nat}
    (hn : ∀ h ∈ hs, n ≤ h.block.length) :
    interleave? (hs.map ChannelHistory.row) n = some (Frame.ofBlocks hs n).samples := by
  have hblocks : (hs.map ChannelHistory.row).mapM (·.current? n) =
      some (hs.map (·.current n)) := by
    rw [Access.mapM_of_eq (g := fun row => row.block.take n), List.map_map]
    · exact congrArg some (List.map_congr_left fun h _ => by
        rw [Function.comp_apply, ChannelHistory.block_row, ChannelHistory.current])
    · intro row hrow
      obtain ⟨h, hh, rfl⟩ := List.mem_map.1 hrow
      rw [ChannelHistory.block_row]
      exact ChannelHistory.current?_row (hn h hh)
  have hsamples : (List.range n).mapM
      (fun i => (hs.map (·.current n)).mapM fun block => block[i]?) =
      some ((List.range n).map fun i => (hs.map (·.current n)).map (·.getD i 0)) := by
    refine Access.mapM_of_eq fun i hi => Access.mapM_of_eq fun block hblock => ?_
    obtain ⟨h, hh, rfl⟩ := List.mem_map.1 hblock
    have hi : i < (h.current n).length := by
      rw [ChannelHistory.length_current (hn h hh)]
      exact List.mem_range.1 hi
    rw [List.getD_eq_getElem?_getD, List.getElem?_eq_getElem hi, Option.getD_some]
  refine Access.bind_of_eq hblocks (Access.bind_of_eq hsamples (congrArg some ?_))
  rw [Frame.ofBlocks, List.map_flatten, List.map_map, List.flatMap_def]
  refine congrArg List.flatten (List.map_congr_left fun i _ => ?_)
  simp

/-- There is always room for a frame. -/
theorem reserve_of_bounded [Memory] (hs : s.Bounded) {channels : Nat}
    (hchannels : channels = s.info.channels) :
    Memory.reserve .frame (channels * s.blockSize) = .ok () :=
  Memory.reserve_frame (hchannels ▸ hs.info.channels_le)
    (Nat.le_trans hs.blockSize_le hs.info.blockSize_le)

/-- What is brought about when the turn is passed on. -/
def turnEffect (s : Stream) : Command.Effect :=
  if s.round.isLast then .frame (Frame.ofBlocks s.round.channels s.blockSize) else .silent

/-- The next channel is the one with the next index, or the first one. -/
theorem on_passTurn [Memory] (failLevel : Level) (hs : s.Bounded) :
    passTurn.on (ofStream failLevel s) = some (.ok (turnEffect s),
      ofStream failLevel { s with round := s.round.next s.round.current }) := by
  have hlast := s.round.isLast_iff
  have hlt := s.round.index_lt_length_channels
  rw [hs.channels] at hlast hlt
  have hindex : (s.round.next s.round.current).index =
      if s.round.index + 1 < s.info.channels then s.round.index + 1 else 0 := by
    rw [Round.index_next]
    split
    · rename_i h
      rw [if_neg (by have := hlast.1 h; omega)]
    · rename_i h
      rw [if_pos (Nat.lt_of_le_of_ne hlt fun heq => h (hlast.2 heq))]
  have hnext : ofStream failLevel { s with round := s.round.next s.round.current } =
      { ofStream failLevel s with
        currentChannel :=
          if s.round.index + 1 < s.info.channels then s.round.index + 1 else 0 } := by
    rw [ofStream, ofStream, Round.channels_next, hindex]
    rfl
  rw [hnext]
  refine on_bind_of_ok rfl (on_bind_of_ok rfl ?_)
  by_cases h : s.round.index + 1 < s.info.channels
  · have hturn : (ofStream failLevel s).currentChannel + 1 < (ofStream failLevel s).channels := h
    have heffect : turnEffect s = .silent :=
      if_neg fun hl => Nat.lt_irrefl _ (hlast.1 hl ▸ h)
    rw [heffect, if_pos hturn]
    rfl
  · have hturn : ¬(ofStream failLevel s).currentChannel + 1 < (ofStream failLevel s).channels := h
    have heffect : turnEffect s = .frame (Frame.ofBlocks s.round.channels s.blockSize) :=
      if_pos (hlast.2 (Nat.le_antisymm hlt (Nat.not_lt.1 h)))
    have hrows : (ofStream failLevel s).rows.length = s.round.channels.length :=
      List.length_map _
    have hsamples := interleave?_row s.round.channels (n := s.blockSize) fun h hh => by
      rw [(hs.histories h hh).block]
      exact hs.blockSize_le
    rw [heffect, if_neg hturn, hrows]
    refine on_bind_of_ok (on_lift (reserve_of_bounded hs hs.channels) _) ?_
    exact on_bind_of_ok (on_lift_of_eq hsamples _) rfl

/-! ### One command -/

theorem bounded_withCurrent (hs : s.Bounded) {h : ChannelHistory} (hh : h.Sound s.info) :
    (s.withCurrent h).Bounded where
  channels := by
    have hchannels := hs.channels
    rw [Round.channels, List.length_append, List.length_cons] at hchannels ⊢
    exact hchannels
  histories h' hmem := by
    rcases List.mem_append.1 hmem with hmem | hmem
    · exact hs.histories h' (List.mem_append_left _ hmem)
    · rcases List.mem_cons.1 hmem with rfl | hmem
      · exact hh
      · exact hs.histories h' (List.mem_append_right _ (List.mem_cons_of_mem _ hmem))
  blockSize_pos := hs.blockSize_pos
  blockSize_le := hs.blockSize_le
  bitshift_le := hs.bitshift_le
  info := hs.info

theorem sound_withBlock (hs : s.Bounded) {context means block : List Int32}
    (hcontext : context.length = s.info.contextLength)
    (hmeans : means.length = ChannelHistory.keptMeans s.info.meanCount)
    (hblock : block.length = s.blockSize) :
    (({ s.round.current with context, means } : ChannelHistory).withBlock block).Sound s.info where
  context := hcontext
  block := by
    have hlength := (hs.histories _ s.round.current_mem_channels).block
    have hle := hs.blockSize_le
    show (block ++ s.round.current.block.drop block.length).length = _
    rw [List.length_append, List.length_drop]
    omega
  means := hmeans

theorem sound_of_readBlock (hs : s.Bounded) {c : Command} {h : ChannelHistory}
    {r r' : BitReader} (hb : s.readBlock c s.round.current r = .ok (h, r')) : h.Sound s.info := by
  obtain ⟨p, samples, -, hlength, rfl⟩ := Stream.eq_of_readBlock hb
  have hcurrent := hs.histories _ s.round.current_mem_channels
  exact sound_withBlock hs ((p.length_removeOffset _ _).trans hcurrent.context) hcurrent.means
    hlength

theorem sound_settleBlock (hs : s.Bounded) {c : Command} {h : ChannelHistory}
    {r r' : BitReader} (hb : s.readBlock c s.round.current r = .ok (h, r')) :
    (s.settleBlock h).Sound s.info := by
  obtain ⟨p, samples, -, hlength, rfl⟩ := Stream.eq_of_readBlock hb
  have hcurrent := hs.histories _ s.round.current_mem_channels
  rw [Stream.settleBlock_withBlock hlength]
  refine sound_withBlock hs ?_ (ChannelHistory.length_meansAfter hcurrent.means _) ?_
  · rw [List.length_drop, List.length_append, p.length_removeOffset, Nat.add_sub_cancel]
    exact hcurrent.context
  · rw [List.length_map]
    exact hlength

/-- **An audio command in place.** -/
theorem on_decodeChannel_of_ok [Memory] (failLevel : Level) (hs : s.Bounded) {c : Command}
    {e : Command.Effect} {s' : Stream} {r r' : BitReader}
    (h : s.decodeChannel c r = .ok (e, s', r')) :
    (decodeChannel c r).on (ofStream failLevel s) =
      some (.ok (e, r'), ofStream failLevel s') := by
  obtain ⟨⟨h', r₁⟩, hb, h⟩ := bind_eq_ok.1 h
  obtain ⟨effect, heffect, h⟩ := bind_eq_ok.1 h
  cases h
  have hsound := sound_of_readBlock hs hb
  have hsettled := sound_settleBlock hs hb
  have hturn := on_passTurn failLevel (bounded_withCurrent hs hsettled)
  have heffect : turnEffect (s.withCurrent (s.settleBlock h')) = e := by
    rw [Stream.eq_of_blockEffect heffect, Round.channels_next]
    rfl
  rw [heffect] at hturn
  refine on_bind_of_ok (on_readBlock_of_ok failLevel hs hb) ?_
  refine on_bind_of_ok (on_settleBlock failLevel (bounded_withCurrent hs hsound)) ?_
  exact on_bind_of_ok hturn rfl

theorem on_decodeChannel_of_error [Memory] (failLevel : Level) (hs : s.Bounded) {c : Command}
    {r : BitReader} {fault : Fault} (h : s.decodeChannel c r = .error fault) :
    ∃ block, block.length = s.round.current.block.length ∧
      (decodeChannel c r).on (ofStream failLevel s) =
        some (.error fault, ofStream failLevel
          (s.withCurrent { s.round.current with block })) := by
  rcases bind_eq_error.1 h with hb | ⟨⟨h', r₁⟩, hb, h⟩
  · obtain ⟨block, hlength, hread⟩ := on_readBlock_of_error failLevel hs hb
    exact ⟨block, hlength, on_bind_of_error hread⟩
  · -- there is always room for the frame
    have hroom (round : Round) (hchannels : round.channels.length = s.info.channels) :
        ∃ e, s.blockEffect round = .ok e := by
      rw [Stream.blockEffect, Frame.interleave, reserve_of_bounded hs hchannels]
      split <;> exact ⟨_, rfl⟩
    obtain ⟨e, he⟩ := hroom (s.round.next (s.settleBlock h'))
      ((s.round.length_channels_next _).trans hs.channels)
    dsimp only at h
    rw [he] at h
    cases h

/-- A stream in registers, which note whether it has ended. -/
def held (failLevel : Level) (s : Stream) (e : Command.Effect) : Registers :=
  { ofStream failLevel s with quitReceived := decide (e = .quit) }

theorem held_of_ne {e : Command.Effect} (he : e ≠ .quit) (failLevel : Level) (s : Stream) :
    held failLevel s e = ofStream failLevel s := by
  rw [held, decide_eq_false he]
  rfl

theorem effect_of_decodeChannel [Memory] {c : Command} {e : Command.Effect} {s' : Stream}
    {r r' : BitReader} (h : s.decodeChannel c r = .ok (e, s', r')) : e ≠ .quit := by
  obtain ⟨⟨h', r₁⟩, -, h⟩ := bind_eq_ok.1 h
  obtain ⟨effect, heffect, h⟩ := bind_eq_ok.1 h
  cases h
  rw [Stream.eq_of_blockEffect heffect]
  split <;> rintro ⟨⟩

theorem on_execute [Memory] {c : Command} {audio : Bool} (haudio : audioTable[c.code]? = some audio)
    (r : BitReader) (s : Registers) :
    (execute c r).on s = (if audio then decodeChannel c r else adjust c r).on s :=
  on_bind_of_ok (on_lift_of_eq haudio s) rfl

theorem audioTable_code (c : Command) : audioTable[c.code]? = some c.isAudio := by
  cases c <;> rfl

theorem on_execute_of_isAudio [Memory] {c : Command} (hc : c.isAudio = true) (r : BitReader)
    (s : Registers) : (execute c r).on s = (decodeChannel c r).on s := by
  rw [on_execute (audioTable_code c), if_pos hc]

theorem on_execute_of_not_isAudio [Memory] {c : Command} (hc : c.isAudio = false) (r : BitReader)
    (s : Registers) : (execute c r).on s = (adjust c r).on s := by
  rw [on_execute (audioTable_code c), hc]
  rfl

/-- **A command in place.** -/
theorem on_execute_of_ok [Memory] (failLevel : Level) (hs : s.Bounded) {c : Command}
    {e : Command.Effect} {s' : Stream} {r r' : BitReader}
    (h : (s.execute c r).outcome = .ok (e, s', r')) :
    (execute c r).on (ofStream failLevel s) = some (.ok (e, r'), held failLevel s' e) := by
  by_cases haudio : c.isAudio = true
  · rw [Stream.outcome_execute_of_isAudio haudio] at h
    rw [on_execute_of_isAudio haudio, held_of_ne (effect_of_decodeChannel h)]
    exact on_decodeChannel_of_ok failLevel hs h
  rw [Bool.not_eq_true] at haudio
  rw [on_execute_of_not_isAudio haudio]
  cases c
  case verbatim =>
    rw [Stream.outcome_execute_verbatim] at h
    obtain ⟨⟨length, r₁⟩, hskip, h⟩ := bind_eq_ok.1 h
    cases h
    exact on_bind_of_ok (on_lift hskip _) rfl
  case bitshift =>
    rw [Stream.outcome_execute_bitshift] at h
    obtain ⟨⟨bitshift, r₁⟩, hread, h⟩ := bind_eq_ok.1 h
    cases h
    exact on_bind_of_ok (on_lift hread _) (on_bind_of_ok rfl rfl)
  case blockSize =>
    rw [Stream.outcome_execute_blockSize] at h
    obtain ⟨⟨blockSize, r₁⟩, hread, h⟩ := bind_eq_ok.1 h
    cases h
    exact on_bind_of_ok rfl (on_bind_of_ok (on_lift hread _) (on_bind_of_ok rfl rfl))
  case quit =>
    rw [Stream.outcome_execute_quit] at h
    cases h
    exact on_bind_of_ok rfl rfl
  all_goals cases haudio

/-- **A command that fails leaves its traces in the block of one channel only.** -/
theorem on_execute_of_error [Memory] (failLevel : Level) (hs : s.Bounded) {c : Command}
    {r : BitReader} {fault : Fault} (h : (s.execute c r).outcome = .error fault) :
    ∃ block, block.length = s.round.current.block.length ∧
      (execute c r).on (ofStream failLevel s) = some (.error fault, ofStream failLevel
        (s.withCurrent { s.round.current with block })) := by
  by_cases haudio : c.isAudio = true
  · rw [Stream.outcome_execute_of_isAudio haudio] at h
    rw [on_execute_of_isAudio haudio]
    exact on_decodeChannel_of_error failLevel hs h
  rw [Bool.not_eq_true] at haudio
  rw [on_execute_of_not_isAudio haudio]
  refine ⟨s.round.current.block, rfl, ?_⟩
  cases c
  case verbatim =>
    rw [Stream.outcome_execute_verbatim] at h
    rcases bind_eq_error.1 h with hskip | ⟨_, -, h⟩
    · exact on_bind_of_error (on_lift hskip _)
    · cases h
  case bitshift =>
    rw [Stream.outcome_execute_bitshift] at h
    rcases bind_eq_error.1 h with hread | ⟨_, -, h⟩
    · exact on_bind_of_error (on_lift hread _)
    · cases h
  case blockSize =>
    rw [Stream.outcome_execute_blockSize] at h
    rcases bind_eq_error.1 h with hread | ⟨_, -, h⟩
    · exact on_bind_of_ok rfl (on_bind_of_error (on_lift hread _))
    · cases h
  case quit =>
    rw [Stream.outcome_execute_quit] at h
    cases h
  all_goals cases haudio

theorem on_carryOut [Memory] (r : BitReader) (s : Registers) :
    (carryOut r).on s = match Command.read r with
      | .ok (c, r₁) => (execute c r₁).on s
      | .error fault => some (.error fault, s) := by
  cases h : Command.read r with
  | ok x => exact on_bind_of_ok (on_lift h s) rfl
  | error fault => exact on_bind_of_error (on_lift h s)

/-- **The machine completes the commands that the decoder completes.** -/
theorem on_carryOut_of_ok [Memory] (failLevel : Level) (hs : s.Bounded) {e : Command.Effect}
    {s' : Stream} {r r' : BitReader} (h : s.carryOut r = .ok ((e, s'), r')) :
    (carryOut r).on (ofStream failLevel s) = some (.ok (e, r'), held failLevel s' e) := by
  obtain ⟨c, r₁, hc, he⟩ := Stream.carryOut_eq_ok.1 h
  rw [on_carryOut, hc]
  exact on_execute_of_ok failLevel hs he

/-- **It fails where the decoder fails**, and leaves its traces in the block of one channel
only. -/
theorem on_carryOut_of_error [Memory] (failLevel : Level) (hs : s.Bounded) {r : BitReader}
    {fault : Fault} (h : s.carryOut r = .error fault) :
    ∃ block, block.length = s.round.current.block.length ∧
      (carryOut r).on (ofStream failLevel s) = some (.error fault, ofStream failLevel
        (s.withCurrent { s.round.current with block })) := by
  rcases Stream.carryOut_eq_error.1 h with hc | ⟨c, r₁, hc, he⟩
  · refine ⟨s.round.current.block, rfl, ?_⟩
    rw [on_carryOut, hc]
    rfl
  · rw [on_carryOut, hc]
    exact on_execute_of_error failLevel hs he

/-! ## Passes, one command at a time -/

theorem runCommands_of_short [Memory] {r : BitReader} (h : r.available < Command.minimalBits)
    (flush : Bool) (s : Registers) :
    runCommands flush r s =
      if flush then (endInTail r).on s else some (.ok (.paused, r), s) := by
  rw [runCommands, if_pos h]

/-- A pass goes on behind a command that was carried out, or ends there. -/
theorem runCommands_of_ok [Memory] {r r' : BitReader} {s s' : Registers} {e : Command.Effect}
    (hlen : Command.minimalBits ≤ r.available) (h : (carryOut r).on s = some (.ok (e, r'), s'))
    (hless : r'.available < r.available) (flush : Bool) :
    runCommands flush r s =
      match e with
      | .silent => runCommands flush r' s'
      | .pause => some (.ok (.paused, r'), s')
      | .frame frame => some (.ok (.frame frame, r'), s')
      | .quit => some (.ok (.quit, r'), s') := by
  rw [on_carryOut] at h
  rw [runCommands, if_neg (Nat.not_lt.2 hlen)]
  cases hc : Command.read r with
  | error fault => rw [hc] at h; cases h
  | ok x =>
    rw [hc] at h
    dsimp only at h ⊢
    rw [h]
    cases e with
    | silent => exact if_pos hless
    | _ => rfl

/-- A pass ends at a command that fails. -/
theorem runCommands_of_error [Memory] {r : BitReader} {s s' : Registers} {fault : Fault}
    (hlen : Command.minimalBits ≤ r.available) (h : (carryOut r).on s = some (.error fault, s'))
    (flush : Bool) :
    runCommands flush r s =
      if fault.isOverread = false then some (.error fault, s')
      else if flush = false then some (.ok (.suspended, r), s')
      else match Command.read r with
        | .error _ => (endWithoutQuit r.available (Stream.cutOff r)).on s'
        | .ok _ => some (.error fault, s') := by
  rw [on_carryOut] at h
  rw [runCommands, if_neg (Nat.not_lt.2 hlen)]
  cases hc : Command.read r with
  | error fault' =>
    rw [hc] at h
    cases h
    dsimp only
    cases hf : fault.isOverread <;> cases flush <;> simp [endAtFault, hf]
  | ok x =>
    rw [hc] at h
    dsimp only at h ⊢
    rw [h]
    dsimp only
    cases hf : fault.isOverread <;> cases flush <;> simp [endAtFault, hf]

end Routine

end LosslessAudio
