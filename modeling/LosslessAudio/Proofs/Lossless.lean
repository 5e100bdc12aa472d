import LosslessAudio.Proofs.Blocks
import LosslessAudio.Proofs.Frames
import LosslessAudio.Proofs.Header
import LosslessAudio.Proofs.Playback
import LosslessAudio.Proofs.Prediction
import LosslessAudio.Proofs.Shape

/-!
# Lossless decoding

What the reference encoder writes, the decoder gives back: `decodes_written`.

* `Follows e s` — the decoder's state `s` agrees with the writer's state `e`: the histories of `s`
  hold the ends of what `e` remembers.  It is kept by every command (`follows_behind` for a block).
* `transcript_of_writes` — what lies in a string of bits that the encoder wrote, by induction on
  how it was written.

A round whose blocks are shorter than the context may only be the last one: behind it, the contexts
of the decoder need no longer be the ends of what was decoded, and nothing is said about them.
-/

set_option autoImplicit false

namespace LosslessAudio

/-! ## Means and offsets -/

/-- The decoder adds up from the left, beginning with its rounding term. -/
theorem foldl_add (xs : List Int32) (start : Int32) :
    xs.foldl (· + ·) start = xs.sum + start := by
  induction xs generalizing start with
  | nil => exact (Int32.zero_add start).symm
  | cons x xs ih => rw [List.foldl_cons, ih, List.sum_cons]; grind

theorem sum_zeros (n : Nat) : (List.replicate n (0 : Int32)).sum = 0 := by
  induction n with
  | zero => rfl
  | succ n ih => rw [List.replicate_succ, List.sum_cons, ih, Int32.zero_add]

/-- The latest `count` means with the oldest one first, zeros before the start of the stream. -/
def latest (count : Nat) (means : List Int32) : List Int32 :=
  ((means ++ List.replicate count 0).take count).reverse

@[simp] theorem length_latest (count : Nat) (means : List Int32) :
    (latest count means).length = count := by
  rw [latest, List.length_reverse, List.length_take, List.length_append, List.length_replicate]
  omega

/-- The zeros before the start of the stream do not count in a sum. -/
theorem sum_latest (count : Nat) (means : List Int32) :
    (latest count means).sum = (means.take count).sum := by
  have hreverse : ∀ xs : List Int32, xs.reverse.sum = xs.sum := fun xs => List.sum_reverse xs
  rw [latest, hreverse, List.take_append, List.take_replicate, List.sum_append, sum_zeros,
    Int32.add_zero]

/-- A new mean pushes the oldest one out. -/
theorem latest_cons {count : Nat} (hcount : 0 < count) (mean : Int32) (means : List Int32) :
    latest count (mean :: means) = (latest count means).drop 1 ++ [mean] := by
  obtain ⟨n, rfl⟩ : ∃ n, count = n + 1 := ⟨count - 1, by omega⟩
  have hlen : ((means ++ List.replicate (n + 1) (0 : Int32)).take (n + 1)).length - 1 = n := by
    rw [List.length_take, List.length_append, List.length_replicate]
    omega
  rw [latest, latest, List.cons_append, List.take_succ_cons, List.reverse_cons, List.drop_reverse,
    hlen, List.take_take, Nat.min_eq_left (Nat.le_succ n)]

theorem toNat_pos {meanCount : Int32} (h : ¬meanCount ≤ 0) : 0 < meanCount.toInt.toNat := by
  rw [Int32.le_iff_toInt_le] at h
  have h0 : (0 : Int32).toInt = 0 := rfl
  omega

/-- What a history keeps of the means of all earlier blocks. -/
def recordedMeans (meanCount : Int32) (means : List Int32) : List Int32 :=
  if meanCount ≤ 0 then [0] else latest meanCount.toInt.toNat means

/-- Before the first block the means are those that a history begins with. -/
theorem recordedMeans_nil (meanCount : Int32) :
    recordedMeans meanCount [] = List.replicate (ChannelHistory.keptMeans meanCount) 0 := by
  rw [recordedMeans, ChannelHistory.keptMeans]
  split
  · rename_i hle
    have hzero : meanCount.toInt.toNat = 0 := by
      rw [Int32.le_iff_toInt_le] at hle
      have h0 : (0 : Int32).toInt = 0 := rfl
      omega
    rw [hzero]
    rfl
  · rename_i hle
    have hpos := toNat_pos hle
    rw [latest, List.nil_append, List.take_replicate, List.reverse_replicate, Nat.min_self,
      Nat.max_eq_right hpos]

section

variable {e : Encoder} {h : ChannelHistory}

/-- The decoder averages what the writer averages. -/
theorem offset_eq (hinfo : e.info.Sound)
    (hmeans : h.means = recordedMeans e.info.meanCount (e.means e.turn)) :
    h.offset e.info.version e.info.meanCount e.bitshift = e.offset := by
  rw [ChannelHistory.offset, Encoder.offset, hmeans, recordedMeans]
  by_cases hle : e.info.meanCount ≤ 0
  · rw [if_pos hle, if_pos hle]
    by_cases hzero : e.info.meanCount = 0
    · rw [if_pos hzero]
      rfl
    · rw [if_neg hzero]
      rcases hinfo.meanCount with ⟨-, hnonneg⟩ | ⟨hversion, hminus⟩
      · rw [Int32.le_iff_toInt_le] at hle
        exact absurd (Int32.toInt_inj.1 (Int.le_antisymm hle hnonneg)) hzero
      · rw [hversion, hminus]
        rfl
  · have hzero : e.info.meanCount ≠ 0 := fun h => hle (by rw [h]; decide)
    have hlen := length_latest e.info.meanCount.toInt.toNat (e.means e.turn)
    rw [if_neg hle, if_neg hle, if_neg hzero, List.take_of_length_le (Nat.le_of_eq hlen)]
    dsimp only
    rw [foldl_add, sum_latest]
    split
    · rw [Int32.add_zero]
    · rfl

/-- Both sides take the same mean of a block. -/
theorem meanOf_eq (block : List Int32) :
    ChannelHistory.meanOf block e.info.version e.bitshift = e.blockMean block := by
  rw [ChannelHistory.meanOf, Encoder.blockMean, foldl_add, foldl_add, Int32.add_zero]

/-- Both sides record it in the same way. -/
theorem meansAfter_eq {meanCount : Int32} {means : List Int32}
    (hmeans : h.means = recordedMeans meanCount means) (mean : Int32) :
    h.meansAfter meanCount mean = recordedMeans meanCount (mean :: means) := by
  rw [ChannelHistory.meansAfter, hmeans, recordedMeans, recordedMeans]
  by_cases hle : meanCount ≤ 0
  · rw [if_pos hle, if_pos hle, if_pos hle]
  · have hlen := length_latest meanCount.toInt.toNat means
    rw [if_neg hle, if_neg hle, if_neg hle, latest_cons (toNat_pos hle),
      List.take_of_length_le (Nat.le_of_eq hlen), List.drop_of_length_le (Nat.le_of_eq hlen),
      List.append_nil]

end

/-! ## Decoder and writer in step -/

/-- How long the last block of channel `c` was, if there was one. -/
def Encoder.lastLength (e : Encoder) (c : Nat) : Option Nat :=
  if c < e.turn then some e.blockSize else e.lastRound

/-- A history that holds the end of what the writer remembers of channel `c`.  Behind a block that
is shorter than the context nothing is said about the context. -/
structure Recalls (e : Encoder) (c : Nat) (h : ChannelHistory) : Prop where
  length_context : h.context.length = e.info.contextLength
  means : h.means = recordedMeans e.info.meanCount (e.means c)
  context : (∀ n ∈ e.lastLength c, e.info.contextLength ≤ n) →
    Sees h.context.length 0 h.context.reverse (e.past c)

/-- The state of a decoder agrees with that of the writer. -/
structure Follows (e : Encoder) (s : Stream) : Prop where
  info : s.info = e.info
  sound : e.info.Sound
  blockSize : s.blockSize = e.blockSize
  bitshift : s.bitshift = e.bitshift
  turn : s.round.index = e.turn
  length_channels : s.round.channels.length = e.info.channels
  recalls : ∀ c h, s.round.channels[c]? = some h → Recalls e c h
  blockSize_le : e.blockSize ≤ StreamInfo.maxBlockSize
  bitshift_le : e.bitshift ≤ Stream.maxBitshift

/-- The blocks that the channels have got in this round are `fresh`. -/
structure Holds (s : Stream) (fresh : List (List Int16)) : Prop where
  current : s.round.done.map (·.current s.blockSize) =
    fresh.map fun block => block.map Int16.toInt32
  length : ∀ block ∈ fresh, block.length = s.blockSize

/-- There are as many fresh blocks as channels had their turn. -/
theorem Holds.length_fresh {s : Stream} {fresh : List (List Int16)} (h : Holds s fresh) :
    fresh.length = s.round.index := by
  have hcount := congrArg List.length h.current
  rw [List.length_map, List.length_map] at hcount
  exact hcount.symm

theorem holds_nil {s : Stream} (h : s.round.done = []) : Holds s [] :=
  ⟨by rw [h]; rfl, fun _ h => nomatch h⟩

/-- The two agree before the first command. -/
theorem follows_start [Memory] {info : StreamInfo} {s : Stream} (hinfo : info.Sound)
    (h : Stream.start info = .ok s) : Follows (.start info) s ∧ Holds s [] := by
  have hchannels := Stream.channels_start hinfo h
  have hs := Stream.eq_of_start h
  subst hs
  have hlength := Round.length_channels_start hinfo.channels_pos
    (.initial info.contextLength info.blockSize info.meanCount info.sampleType.initialMean)
  refine ⟨⟨rfl, hinfo, rfl, rfl, rfl, hlength, ?_, hinfo.blockSize_le, ?_⟩, holds_nil rfl⟩
  · intro c h hc
    rw [hchannels] at hc
    obtain rfl := List.eq_of_mem_replicate (List.mem_of_getElem? hc)
    refine ⟨List.length_replicate, ?_, fun _ j hj => ?_⟩
    · have hzero : info.sampleType.initialMean = 0 := by cases info.sampleType <;> rfl
      rw [ChannelHistory.initial, hzero]
      exact (recordedMeans_nil info.meanCount).symm
    · rw [ChannelHistory.initial] at hj ⊢
      rw [List.length_replicate] at hj
      rw [List.reverse_replicate, List.getElem?_replicate_of_lt hj]
      show some 0 = some (([] : List Int32).getD j 0 - 0)
      rw [List.getD_nil, Int32.sub_zero]
  · exact Nat.zero_le _

/-! ## Commands -/

theorem reads_command (c : Command) : Reads Command.read (Encoder.commandCode c) c := by
  have hcode : (UInt32.ofNat c.code).toNat = c.code := by cases c <;> rfl
  have hread := (BitReader.reads_rice (k := Command.codeParameter) (by decide) c.code).lift
  rw [Encoder.commandCode, ← List.append_nil (Code.rice _ _)]
  refine hread.bind ?_
  dsimp only
  rw [hcode, Command.ofCode?_code]
  exact Reads.pure c

section

variable {s s' : Stream} {c : Command} {effect : Command.Effect} {body : List Bool}

/-- A command is carried out if what stands behind its code is read. -/
theorem reads_carryOut [Memory]
    (hbody : Reads (fun r => (s.execute c r).outcome >>= fun x => .ok ((x.1, x.2.1), x.2.2)) body
      (effect, s')) :
    Reads s.carryOut (Encoder.commandCode c ++ body) (effect, s') :=
  (reads_command c).bind hbody

/-- A command that is read back is carried out, and the transcript goes on behind it. -/
theorem transcript_of_reads [Memory] (failLevel : Level) {code : List Bool}
    (h : Reads s.carryOut code (effect, s')) (hlen : Command.minimalBits ≤ code.length)
    (hquit : effect ≠ .quit) (rest : List Bool) :
    s.transcript failLevel (code ++ rest) =
      (s'.transcript failLevel rest).after effect.frames := by
  have hnext : s.next? ⟨0, code⟩ = some ((effect, s'), ⟨code.length, []⟩) := by
    have h := h 0 []
    rw [List.append_nil, Nat.zero_add] at h
    exact Stream.next?_eq_some.2 ⟨hlen, h⟩
  rw [show code ++ rest = (⟨0, code⟩ : BitReader).rest ++ rest from rfl,
    Stream.transcript_of_next? hnext, if_neg hquit]
  rfl

/-- A quit command ends the stream, whatever follows it. -/
theorem transcript_of_quit [Memory] (s : Stream) (failLevel : Level) (rest : List Bool) :
    s.transcript failLevel (Encoder.commandCode .quit ++ rest) =
      (Transcript.ended (some s)).unplaced := by
  have hread := reads_command .quit 0 rest
  have hcarry : s.carryOut ⟨0, Encoder.commandCode .quit ++ rest⟩ =
      .ok ((.quit, s), ⟨0 + (Encoder.commandCode .quit).length, rest⟩) :=
    Stream.carryOut_eq_ok.2 ⟨_, _, hread, rfl⟩
  rw [Stream.transcript]
  by_cases hlen : Command.minimalBits ≤
      BitReader.available ⟨0, Encoder.commandCode .quit ++ rest⟩
  · rw [Stream.playOut_of_next? (Stream.next?_eq_some.2 ⟨hlen, hcarry⟩), if_pos rfl]
  · -- the quit command alone is shorter than what is looked for
    have hnone : s.next? ⟨0, Encoder.commandCode .quit ++ rest⟩ = none := by
      rw [Stream.next?, if_pos (Nat.lt_of_not_le hlen)]
    rw [Stream.playOut_of_stuck hnone, Stream.ending_eq hnone, if_pos (Nat.lt_of_not_le hlen),
      hread]

end

/-- Verbatim bytes are passed over. -/
theorem reads_verbatim [Memory] (s : Stream) {bytes : Bytes} (hlength : bytes.length < 2 ^ 32) :
    Reads s.carryOut (Encoder.verbatimCode bytes) (.silent, s) := by
  have hnat : (UInt32.ofNat bytes.length).toNat = bytes.length :=
    UInt32.toNat_ofNat_of_lt' hlength
  have hread : Reads (fun r => Stream.skipVerbatim r)
      (Code.rice StreamInfo.verbatimLengthParameter bytes.length ++
        (bytes.map (·.toNat)).flatMap (Code.rice StreamInfo.verbatimByteParameter))
      bytes.length := by
    have hbytes := BitReader.reads_riceMany (k := StreamInfo.verbatimByteParameter) (by decide)
      (bytes.map (·.toNat))
    rw [List.length_map] at hbytes
    refine (BitReader.reads_rice (by decide) bytes.length).bind ?_
    dsimp only
    rw [hnat]
    exact hbytes.map fun _ => bytes.length
  refine reads_carryOut ?_
  simp only [Stream.outcome_execute_verbatim, bind_assoc, ok_bind]
  exact hread.lift.map fun _ => (Command.Effect.silent, s)

theorem reads_bitshift [Memory] (s : Stream) {bitshift : Nat}
    (hle : bitshift ≤ Stream.maxBitshift) :
    Reads s.carryOut (Encoder.bitshiftCode bitshift) (.silent, { s with bitshift }) := by
  have hnat : (UInt32.ofNat bitshift).toNat = bitshift := by
    rw [Stream.maxBitshift] at hle
    exact UInt32.toNat_ofNat_of_lt' (by rw [UInt32.size]; omega)
  have hread : Reads (fun r => Stream.readBitshift r)
      (Code.rice Stream.bitshiftParameter bitshift) bitshift := by
    rw [← List.append_nil (Code.rice _ _)]
    refine (BitReader.reads_rice (by decide) bitshift).lift.bind ?_
    dsimp only
    refine .check (by rw [hnat]; exact hle) ?_
    rw [hnat]
    exact Reads.pure bitshift
  refine reads_carryOut ?_
  simp only [Stream.outcome_execute_bitshift, bind_assoc, ok_bind]
  exact hread.map fun bitshift => (Command.Effect.silent, { s with bitshift })

theorem blockSizeParameter_le {blockSize : Nat} (h : blockSize ≤ StreamInfo.maxBlockSize) :
    StreamInfo.blockSizeParameter blockSize ≤ Rice.maxParameter := by
  rw [StreamInfo.maxBlockSize] at h
  have hlog := (Nat.log2_lt (n := max 1 blockSize) (k := 16) (by omega)).2 (by omega)
  rw [StreamInfo.blockSizeParameter, Rice.maxParameter]
  omega

/-- A block size that is no larger than the last one is read back, whichever parameter it was
written with. -/
theorem reads_blockSize [Memory] {e : Encoder} {s : Stream} (h : Follows e s) {k blockSize : Nat}
    (hk : k ≤ Rice.maxParameter) (hpos : 0 < blockSize) (hle : blockSize ≤ e.blockSize) :
    Reads s.carryOut (e.blockSizeCode k blockSize) (.pause, { s with blockSize }) := by
  have hmax := h.blockSize_le
  have hnat : (UInt32.ofNat blockSize).toNat = blockSize := by
    rw [StreamInfo.maxBlockSize] at hmax
    exact UInt32.toNat_ofNat_of_lt' (by rw [UInt32.size]; omega)
  have hhint := blockSizeParameter_le hmax
  have hread : Reads (fun r => s.readBlockSize r)
      (Code.adaptive e.info.version (StreamInfo.blockSizeParameter e.blockSize) k blockSize)
      blockSize := by
    rw [← List.append_nil (Code.adaptive _ _ _ _)]
    simp only [Stream.readBlockSize, h.info, h.blockSize]
    refine (BitReader.reads_adaptive hhint hk blockSize).lift.bind ?_
    dsimp only
    refine .check (by rw [hnat]; exact hle) (.check (by rw [hnat]; exact ⟨hpos, by omega⟩) ?_)
    rw [hnat]
    exact Reads.pure blockSize
  refine reads_carryOut ?_
  simp only [Stream.outcome_execute_blockSize, bind_assoc, ok_bind]
  exact hread.map fun blockSize => (Command.Effect.pause, { s with blockSize })

/-! ## Blocks -/

/-- Behind a block that is at least as long as the context, the context is its end. -/
theorem sees_behind {context block : List Int32} (hle : context.length ≤ block.length)
    (past : List Int32) :
    Sees context.length 0 ((context ++ block).drop block.length).reverse
      (block.reverse ++ past) := by
  intro j hj
  have hend : ((context ++ block).drop block.length).reverse =
      block.reverse.take context.length := by
    rw [List.drop_append, List.drop_of_length_le hle, List.nil_append, List.take_reverse]
  have hlt : j < block.reverse.length := by
    rw [List.length_reverse]
    omega
  rw [hend, List.getElem?_take_of_lt hj, List.getD_eq_getElem?_getD,
    List.getElem?_append_left hlt, List.getElem?_eq_getElem hlt, Int32.sub_zero]
  rfl

theorem length_lowered (e : Encoder) (block : List Int16) :
    (e.lowered block).length = block.length :=
  List.length_map _

/-- What the decoder gives back is the block itself. -/
theorem shiftLeft_lowered {e : Encoder} (hshift : e.bitshift ≤ Stream.maxBitshift)
    {block : List Int16} (h : ∀ x ∈ block, (2 ^ e.bitshift : Int) ∣ x.toInt) :
    ((e.lowered block).map fun x => Sample.shiftLeft x e.bitshift) = block.map Int16.toInt32 := by
  rw [Encoder.lowered, List.map_map]
  refine List.map_congr_left fun x hx => ?_
  refine Sample.shiftLeft_shiftRight (Nat.lt_succ_of_le hshift) ?_
  rw [Int16.toInt_toInt32]
  exact h x hx

section

variable {e : Encoder} {s : Stream}

theorem isLast_iff (h : Follows e s) : s.round.isLast = true ↔ e.isLast := by
  rw [Round.isLast_iff, h.turn, h.length_channels, Encoder.isLast]

/-- The history of the current channel, as the writer remembers it. -/
theorem recalls_current (h : Follows e s) : Recalls e e.turn s.round.current :=
  h.recalls e.turn s.round.current (h.turn ▸ s.round.getElem?_channels_index)

theorem lastLength_behind_turn (e : Encoder) (block : List Int32) :
    (e.behind block).lastLength e.turn = some e.blockSize := by
  rw [Encoder.lastLength, Encoder.behind]
  by_cases hlast : e.isLast
  · simp only [if_pos hlast, if_neg (Nat.not_lt_zero _)]
  · simp only [if_neg hlast, if_pos (Nat.lt_succ_self _)]

/-- A block of one channel does not change when another channel had its last one. -/
theorem lastLength_behind_of_ne {c : Nat} (block : List Int32) (hc : c < e.info.channels)
    (hne : c ≠ e.turn) : (e.behind block).lastLength c = e.lastLength c := by
  rw [Encoder.lastLength, Encoder.lastLength, Encoder.behind]
  by_cases hlast : e.isLast
  · have hlt : c < e.turn := by
      rw [Encoder.isLast] at hlast
      omega
    simp only [if_pos hlast, if_neg (Nat.not_lt_zero _), if_pos hlt]
  · have hiff : c < e.turn + 1 ↔ c < e.turn := by omega
    simp only [if_neg hlast, hiff]

/-- **The writer's state and the decoder's stay in step across a block.** -/
theorem follows_behind (h : Follows e s) {history : ChannelHistory} {block : List Int32}
    (hcontext : history.context.length = e.info.contextLength)
    (hmeans : history.means = s.round.current.means) (hblock : block.length = s.blockSize) :
    Follows (e.behind block)
      { s with round := s.round.next (s.settleBlock (history.withBlock block)) } := by
  have hmeans := hmeans.trans (recalls_current h).means
  have hlast := isLast_iff h
  rw [Stream.settleBlock_withBlock hblock]
  refine ⟨h.info, h.sound, h.blockSize, h.bitshift, ?_, ?_, fun c old hc => ?_,
    h.blockSize_le, h.bitshift_le⟩
  · rw [Round.index_next, h.turn, Encoder.behind]
    by_cases hl : e.isLast
    · rw [if_pos (hlast.2 hl), if_pos hl]
    · rw [if_neg fun h => hl (hlast.1 h), if_neg hl]
  · rw [Round.length_channels_next]
    exact h.length_channels
  · have hc' := (List.getElem?_eq_some_iff.1 hc).1
    rw [Round.length_channels_next, h.length_channels] at hc'
    rw [Round.getElem?_channels_next, h.turn] at hc
    split at hc
    · rename_i hturn
      subst hturn
      cases hc
      have hlength : ((history.context ++ block).drop block.length).length =
          history.context.length := by
        rw [List.length_drop, List.length_append, Nat.add_sub_cancel]
      refine ⟨hlength.trans hcontext, ?_, fun hlong => ?_⟩
      · rw [ChannelHistory.means_withBlock, h.info, h.bitshift, meanOf_eq, meansAfter_eq hmeans]
        simp only [Encoder.behind, if_pos]
      · have hle : e.info.contextLength ≤ e.blockSize :=
          hlong e.blockSize (lastLength_behind_turn e block ▸ rfl)
        rw [← hcontext, ← h.blockSize, ← hblock] at hle
        have hsees := sees_behind hle (e.past e.turn)
        rw [ChannelHistory.context_withBlock]
        simp only [hlength, Encoder.behind, if_pos]
        exact hsees
    · rename_i hturn
      obtain ⟨hlength, hmeans, hsees⟩ := h.recalls c old hc
      refine ⟨hlength, ?_, fun hlong => ?_⟩
      · simp only [Encoder.behind, if_neg hturn]
        exact hmeans
      · rw [lastLength_behind_of_ne block hc' hturn] at hlong
        simp only [Encoder.behind, if_neg hturn]
        exact hsees hlong

/-- A block that was read is settled, and the turn goes on. -/
theorem reads_decodeChannel [Memory] {c : Command} {body : List Bool} {history : ChannelHistory}
    {effect : Command.Effect} (hc : c.isAudio = true)
    (hread : Reads (fun r => s.readBlock c s.round.current r) body history)
    (heffect : s.blockEffect (s.round.next (s.settleBlock history)) = .ok effect) :
    Reads s.carryOut (Encoder.commandCode c ++ body)
      (effect, { s with round := s.round.next (s.settleBlock history) }) := by
  refine reads_carryOut ?_
  simp only [Stream.outcome_execute_of_isAudio hc, Stream.decodeChannel, bind_assoc]
  rw [← List.append_nil body]
  refine hread.bind ?_
  dsimp only
  rw [heffect]
  exact Reads.pure (effect, { s with round := s.round.next (s.settleBlock history) })

theorem isAudio_command (coding : Coding) : coding.command.isAudio = true := by
  match coding with
  | .zero | .fixed 0 _ | .fixed 1 _ | .fixed 2 _ | .fixed 3 _ | .linear _ _ => rfl

theorem interleave_eq [Memory] (h : Follows e s) {hs : List ChannelHistory}
    (hcount : hs.length = e.info.channels) :
    Frame.interleave hs s.blockSize = .ok (Frame.ofBlocks hs s.blockSize) := by
  have hroom := Memory.reserve_frame (hcount ▸ h.sound.channels_le) (h.blockSize ▸ h.blockSize_le)
  rw [Frame.interleave, hroom]
  rfl

theorem blockEffect_eq [Memory] (h : Follows e s) {round : Round}
    (hcount : round.channels.length = e.info.channels) :
    s.blockEffect round = .ok (if s.round.isLast then
      .frame (Frame.ofBlocks round.channels s.blockSize) else .silent) := by
  rw [Stream.blockEffect]
  split
  · rw [interleave_eq h hcount]
    rfl
  · rfl

/-- The blocks of a round with one more block. -/
theorem current_append {fresh : List (List Int16)} (hf : Holds s fresh) {settled : ChannelHistory}
    {block : List Int16} (hsettled : settled.current s.blockSize = block.map Int16.toInt32) :
    (s.round.done ++ [settled]).map (·.current s.blockSize) =
      (fresh ++ [block]).map fun block => block.map Int16.toInt32 := by
  rw [List.map_append, List.map_append, hf.current, List.map_singleton, List.map_singleton,
    hsettled]

theorem length_append {fresh : List (List Int16)} (hf : Holds s fresh) {block : List Int16}
    (hlength : block.length = s.blockSize) :
    ∀ other ∈ fresh ++ [block], other.length = s.blockSize := by
  intro other hmem
  rcases List.mem_append.1 hmem with hmem | hmem
  · exact hf.length other hmem
  · rw [List.mem_singleton.1 hmem, hlength]

/-- **A block gives itself back**: the decoder follows the writer, holds the block until the round
is complete, and then gives all blocks of the round as a frame. -/
theorem reads_block [Memory] (h : Follows e s) {fresh : List (List Int16)} (hf : Holds s fresh)
    {coding : Coding} {block : List Int16} (hlength : block.length = e.blockSize)
    (hdropped : ∀ x ∈ block, (2 ^ e.bitshift : Int) ∣ x.toInt)
    (hcontext : ∀ n ∈ e.lastRound, e.info.contextLength ≤ n)
    (hfits : coding.Fits e.info.version e.info.contextLength (e.lowered block)) :
    ∃ s' effect, Follows (e.behind (e.lowered block)) s' ∧
      Reads s.carryOut (e.blockCode coding (e.lowered block)) (effect, s') ∧
      if e.isLast then ∃ frame, effect = .frame frame ∧ frame.rows = fresh ++ [block] ∧ Holds s' []
      else effect = .silent ∧ Holds s' (fresh ++ [block]) := by
  have hcurrent := recalls_current h
  have hblock : (e.lowered block).length = s.blockSize := by
    rw [length_lowered, hlength, h.blockSize]
  have hlimit : s.info.contextLength < 2 ^ 32 :=
    Nat.lt_trans (h.info ▸ h.sound.contextLength_lt) (by decide)
  have hoffset : s.round.current.offset s.info.version s.info.meanCount s.bitshift = e.offset := by
    rw [h.info, h.bitshift]
    exact offset_eq h.sound hcurrent.means
  have hpast := hcurrent.context (by rwa [Encoder.lastLength, if_neg (Nat.lt_irrefl _)])
  obtain ⟨history, hlen, hmeans, hread⟩ := Stream.reads_readBlock h.info hblock
    (h.info ▸ hcurrent.length_context) hlimit (StreamInfo.minimalContext_le _) hpast hoffset
    (h.info ▸ hfits)
  have hfollows := follows_behind h (hlen.trans hcurrent.length_context) hmeans hblock
  have hsettled : (s.settleBlock (history.withBlock (e.lowered block))).current s.blockSize =
      block.map Int16.toInt32 := by
    have hshift := shiftLeft_lowered h.bitshift_le hdropped
    rw [Stream.settleBlock_withBlock hblock, h.bitshift, hshift]
    have hsize : s.blockSize = (block.map Int16.toInt32).length := by
      rw [List.length_map, hlength, h.blockSize]
    rw [hsize, ChannelHistory.current_withBlock]
  have hsize : block.length = s.blockSize := by rw [hlength, h.blockSize]
  have happend := current_append hf hsettled
  have heffect := blockEffect_eq h ((s.round.length_channels_next (s.settleBlock
    (history.withBlock (e.lowered block)))).trans h.length_channels)
  refine ⟨_, _, hfollows, reads_decodeChannel (isAudio_command coding) hread heffect, ?_⟩
  by_cases hlast : e.isLast
  · have hlast' := (isLast_iff h).2 hlast
    rw [if_pos hlast, if_pos hlast']
    refine ⟨_, rfl, ?_, holds_nil ?_⟩
    · rw [Round.channels_next, List.isEmpty_iff.1 hlast']
      exact Frame.rows_ofBlocks happend (length_append hf hsize)
    · rw [Round.done_next, if_pos hlast']
  · have hlast' : ¬s.round.isLast = true := fun h' => hlast ((isLast_iff h).1 h')
    rw [if_neg hlast, if_neg hlast']
    refine ⟨rfl, ?_, length_append hf hsize⟩
    rw [Round.done_next, if_neg hlast']
    exact happend

end

/-! ## Whole streams -/

namespace Encoder

theorem length_commandCode (c : Command) : (commandCode c).length = c.code / 4 + 3 := by
  rw [commandCode, Code.length_rice]
  rfl

theorem minimalBits_le_blockCode (e : Encoder) (coding : Coding) (block : List Int32) :
    Command.minimalBits ≤ (e.blockCode coding block).length := by
  rw [blockCode, List.length_append, length_commandCode, Command.minimalBits]
  rcases coding with _ | ⟨order, parameter⟩ | ⟨coefficients, parameter⟩
  · show 5 ≤ 8 / 4 + 3 + _
    omega
  · rw [blockBody, List.length_append, Code.length_rice, Stream.residualParameter]
    omega
  · rw [blockBody, List.length_append, Code.length_rice, Stream.residualParameter]
    omega

theorem minimalBits_le_verbatimCode (bytes : Bytes) :
    Command.minimalBits ≤ (verbatimCode bytes).length := by
  rw [verbatimCode, List.length_append, length_commandCode, Command.minimalBits]
  show 5 ≤ 9 / 4 + 3 + _
  omega

theorem minimalBits_le_bitshiftCode (bitshift : Nat) :
    Command.minimalBits ≤ (bitshiftCode bitshift).length := by
  rw [bitshiftCode, List.length_append, length_commandCode, Code.length_rice,
    Stream.bitshiftParameter, Command.minimalBits]
  omega

theorem minimalBits_le_blockSizeCode (e : Encoder) (k blockSize : Nat) :
    Command.minimalBits ≤ (e.blockSizeCode k blockSize).length := by
  have hpos := Code.length_adaptive_pos e.info.version (StreamInfo.blockSizeParameter e.blockSize)
    k blockSize
  rw [blockSizeCode, List.length_append, length_commandCode, Command.minimalBits]
  show 5 ≤ 5 / 4 + 3 + _
  omega

end Encoder

theorem flatten_eq_nil {channels : Nat} (hpos : 0 < channels) {rounds : List (List (List Int16))}
    (hcount : ∀ round ∈ rounds, round.length = channels) (h : rounds.flatten = []) :
    rounds = [] := by
  cases rounds with
  | nil => rfl
  | cons round rounds =>
    rw [List.flatten_cons, List.append_eq_nil_iff] at h
    have hlen := hcount round (List.mem_cons_self ..)
    rw [h.1, List.length_nil] at hlen
    omega

/-- The first round is complete as soon as there is a block for every channel. -/
theorem flatten_eq_append {channels : Nat} {rounds : List (List (List Int16))}
    (hcount : ∀ round ∈ rounds, round.length = channels) {first blocks : List (List Int16)}
    (hfirst : first.length = channels) (hpos : 0 < channels)
    (h : first ++ blocks = rounds.flatten) :
    ∃ rest, rounds = first :: rest ∧ blocks = rest.flatten := by
  cases rounds with
  | nil =>
    rw [List.flatten_nil, List.append_eq_nil_iff] at h
    rw [h.1, List.length_nil] at hfirst
    omega
  | cons round rounds =>
    have hlen := hcount round (List.mem_cons_self ..)
    rw [List.flatten_cons] at h
    obtain ⟨rfl, rfl⟩ := List.append_inj h (hfirst.trans hlen.symm)
    exact ⟨rounds, rfl, rfl⟩

theorem follows_bitshift {e : Encoder} {s : Stream} (h : Follows e s) {bitshift : Nat}
    (hle : bitshift ≤ Stream.maxBitshift) :
    Follows { e with bitshift } { s with bitshift } :=
  ⟨h.info, h.sound, h.blockSize, rfl, h.turn, h.length_channels, fun c history hc =>
    ⟨(h.recalls c history hc).length_context, (h.recalls c history hc).means,
      (h.recalls c history hc).context⟩, h.blockSize_le, hle⟩

/-- Between two rounds nobody holds a block, whatever the block size. -/
theorem follows_blockSize {e : Encoder} {s : Stream} (h : Follows e s) {blockSize : Nat}
    (hturn : e.turn = 0) (hle : blockSize ≤ e.blockSize) :
    Follows { e with blockSize } { s with blockSize } := by
  refine ⟨h.info, h.sound, rfl, h.bitshift, h.turn, h.length_channels, fun c history hc => ?_,
    Nat.le_trans hle h.blockSize_le, h.bitshift_le⟩
  obtain ⟨hlength, hmeans, hcontext⟩ := h.recalls c history hc
  refine ⟨hlength, hmeans, fun hlong => hcontext ?_⟩
  rw [Encoder.lastLength, hturn, if_neg (Nat.not_lt_zero c)] at hlong ⊢
  exact hlong

/-- **What a decoder in step with the writer finds in the rest of the stream**: the rounds, of
which it has the blocks `fresh` already, as one frame each. -/
theorem transcript_of_writes [Memory] {e : Encoder} {bits : List Bool} {blocks : List (List Int16)}
    (hw : Writes e bits blocks) (failLevel : Level) :
    ∀ {s : Stream} {fresh : List (List Int16)} {rounds : List (List (List Int16))},
      Follows e s → Holds s fresh → fresh ++ blocks = rounds.flatten →
      (∀ round ∈ rounds, round.length = e.info.channels) →
      ∃ frames s', s.transcript failLevel bits = ⟨frames, some s', .ok ()⟩ ∧
        s'.info = e.info ∧ frames.map Frame.rows = rounds := by
  induction hw with
  | quit hturn padding =>
    intro s fresh rounds h hf hrounds hcount
    have hfresh : fresh = [] := List.length_eq_zero_iff.1 (by rw [hf.length_fresh, h.turn, hturn])
    rw [hfresh, List.append_nil] at hrounds
    rw [flatten_eq_nil h.sound.channels_pos hcount hrounds.symm]
    exact ⟨[], s, transcript_of_quit s failLevel padding, h.info, rfl⟩
  | verbatim bytes hlength _ ih =>
    intro s fresh rounds h hf hrounds hcount
    obtain ⟨frames, s', ht, hs', hrows⟩ := ih h hf hrounds hcount
    refine ⟨frames, s', ?_, hs', hrows⟩
    rw [transcript_of_reads failLevel (reads_verbatim s hlength)
      (Encoder.minimalBits_le_verbatimCode bytes) (by decide), ht]
    rfl
  | bitshift bitshift hle _ ih =>
    intro s fresh rounds h hf hrounds hcount
    obtain ⟨frames, s', ht, hs', hrows⟩ := ih (follows_bitshift h hle) ⟨hf.current, hf.length⟩
      hrounds hcount
    refine ⟨frames, s', ?_, hs', hrows⟩
    rw [transcript_of_reads failLevel (reads_bitshift s hle)
      (Encoder.minimalBits_le_bitshiftCode bitshift) (by decide), ht]
    rfl
  | blockSize k blockSize hturn hk hpos hle _ ih =>
    intro s fresh rounds h hf hrounds hcount
    have hfresh : fresh = [] := List.length_eq_zero_iff.1 (by rw [hf.length_fresh, h.turn, hturn])
    have hdone : s.round.done = [] := List.length_eq_zero_iff.1 (h.turn.trans hturn)
    subst hfresh
    obtain ⟨frames, s', ht, hs', hrows⟩ := ih (follows_blockSize h hturn hle) (holds_nil hdone)
      hrounds hcount
    refine ⟨frames, s', ?_, hs', hrows⟩
    rw [transcript_of_reads failLevel (reads_blockSize h hk hpos hle)
      (Encoder.minimalBits_le_blockSizeCode _ k blockSize) (by decide), ht]
    rfl
  | @block e bits blocks coding block hlength hdropped hcontext hfits _ ih =>
    intro s fresh rounds h hf hrounds hcount
    obtain ⟨s', effect, hfollows, hread, heffect⟩ :=
      reads_block h hf hlength hdropped hcontext hfits
    have hblock := transcript_of_reads failLevel hread (e.minimalBits_le_blockCode coding _)
    have hrounds : (fresh ++ [block]) ++ blocks = rounds.flatten := by
      rw [List.append_assoc]
      exact hrounds
    split at heffect
    · rename_i hlast
      obtain ⟨frame, rfl, hrow, hf'⟩ := heffect
      have hfirst : (fresh ++ [block]).length = e.info.channels := by
        rw [List.length_append, hf.length_fresh, h.turn]
        exact hlast
      obtain ⟨rest, rfl, hrest⟩ := flatten_eq_append hcount hfirst h.sound.channels_pos hrounds
      obtain ⟨frames, s'', ht, hs'', hrows⟩ := ih hfollows hf' hrest fun round hround =>
        hcount round (List.mem_cons_of_mem _ hround)
      refine ⟨frame :: frames, s'', ?_, hs'', by rw [List.map_cons, hrow, hrows]⟩
      rw [hblock (by rintro ⟨⟩), ht]
      rfl
    · obtain ⟨rfl, hf'⟩ := heffect
      obtain ⟨frames, s'', ht, hs'', hrows⟩ := ih hfollows hf' hrounds hcount
      refine ⟨frames, s'', ?_, hs'', hrows⟩
      rw [hblock (by decide), ht]
      rfl

/-- **What the writer puts into a stream, the decoder gets out of it.**  Whatever header the decoder
accepts, whatever rounds of blocks were written behind it and however, in whatever pieces the
bytes arrive, if only there is room for them: the run ends well, the parameters are those of the
header, and there is one frame for each round, whose channels are the blocks of the round. -/
theorem decodes_written [Memory] {failLevel : Level} {info : StreamInfo} {s : Stream}
    {header body : List Bool} {rounds : List (List (List Int16))}
    (hheader : (StreamInfo.read failLevel ⟨0, header⟩).outcome = .ok (info, ⟨header.length, []⟩))
    (hstart : Stream.start info = .ok s)
    (hrounds : ∀ round ∈ rounds, round.length = info.channels)
    (hbody : Writes (.start info) body rounds.flatten) (frameSize : Nat) {pieces : List Bytes}
    (hpieces : Bits.ofBytes pieces.flatten = header ++ body)
    (hheld : PendingInput.CanHold pieces.flatten.length) :
    ∃ t, Plays (.start frameSize failLevel) pieces t ∧ t.outcome = .ok () ∧
      t.decoder.info? = some info ∧ t.frames.map Frame.rows = rounds := by
  obtain ⟨hfollows, hholds⟩ := follows_start (StreamInfo.sound_of_read hheader) hstart
  obtain ⟨frames, s', ht, hs', hrows⟩ :=
    transcript_of_writes hbody failLevel hfollows hholds rfl hrounds
  obtain ⟨t, hplays, htranscript⟩ :=
    playsOut_of_ready _ _ (Decoder.ready_start frameSize failLevel hheld)
  obtain ⟨n, -, hread⟩ := (StreamInfo.selfDelimiting_read failLevel).ok hheader
  have hahead : t.transcript = ⟨frames, some s', .ok ()⟩ := by
    rw [htranscript, hpieces, ← ht]
    show Transcript.ahead failLevel none (header ++ body) = _
    rw [Transcript.ahead,
      show (⟨0, header ++ body⟩ : BitReader) = (⟨0, header⟩ : BitReader).within 0 body from rfl,
      hread 0 body]
    dsimp only
    rw [hstart]
    rfl
  rw [Playback.transcript, Transcript.unplaced, Transcript.mk.injEq] at hahead
  obtain ⟨hframes, hstream, houtcome⟩ := hahead
  dsimp only at hframes hstream houtcome
  refine ⟨t, hplays, ?_, ?_, by rw [hframes, hrows]⟩
  · cases hresult : t.outcome with
    | ok => rfl
    | error fault =>
      rw [hresult] at houtcome
      cases houtcome
  · rw [Decoder.info?, hstream, Option.map_some, hs']
    rfl

/-- The header of a short stereo stream. -/
def stereoHeader : Header where
  version := 2
  sampleType := .littleEndian
  channels := 2
  blockSize := 4
  maxOrder := 0
  meanCount := 1
  skipped := [0xAA]
  waveHeader := [0x52, 0x49, 0x46, 0x46, 0x3C, 0, 0, 0, 0x57, 0x41, 0x56, 0x45, 0x66, 0x6D, 0x74,
    0x20, 16, 0, 0, 0, 1, 0, 2, 0, 0x44, 0xAC, 0, 0, 0x10, 0xB1, 2, 0, 4, 0, 16, 0, 0x64, 0x61,
    0x74, 0x61, 24, 0, 0, 0]
  parameter _ := 2

open scoped Memory in
/-- Behind this header, all of: a block of zeros, a bitshift, shorter blocks, and fixed as well as
linear prediction from a channel that has an offset. -/
theorem decodes_written_stereo : ∃ t, Plays (.start 16 .error)
    [[0x61, 0x6A, 0x6B, 0x67, 2, 203, 182, 77, 53, 214, 168, 171, 42, 84, 154, 53, 26, 121, 0, 128,
        64, 42, 244, 26, 181, 22, 205, 109, 186, 72, 34, 16, 8, 4, 2, 3, 0, 129, 64, 40, 154],
      [200, 4, 2, 33, 177, 129, 64, 32, 144, 8, 132, 2, 201, 97, 186, 88, 99, 16, 8, 4, 2, 203, 34,
        33, 26, 173, 79, 85, 1, 49, 166, 145, 0]] t ∧ t.outcome = .ok () ∧
      t.decoder.info? = some (.ofParts stereoHeader.preamble stereoHeader.waveHeader ⟨44100, 16⟩) ∧
      t.frames.map Frame.rows =
        [[[3, 5, 7, 9], [0, 0, 0, 0]], [[10, 12], [-2, 4]]] := by
  have hformat : (WaveFormat.parse stereoHeader.waveHeader).outcome.toOption =
      some ⟨44100, 16⟩ := by
    decide +kernel
  have hwave : (WaveFormat.parse stereoHeader.waveHeader).outcome = .ok ⟨44100, 16⟩ := by
    generalize (WaveFormat.parse stereoHeader.waveHeader).outcome = parsed at hformat
    cases parsed with
    | error fault => cases hformat
    | ok format => cases hformat; rfl
  have hvalid : stereoHeader.Valid .error :=
    ⟨fun _ => show 2 ≤ 31 by decide, by decide, by decide, by decide, by decide, by decide,
      by decide, by decide, by decide, by decide, by decide⟩
  have hheader := reads_header hvalid hwave 0 []
  rw [List.append_nil, Nat.zero_add] at hheader
  have hall {p : Int16 → Prop} [DecidablePred p] {block : List Int16}
      (h : block.all (p ·) = true) : ∀ x ∈ block, p x :=
    fun x hx => of_decide_eq_true (List.all_eq_true.1 h x hx)
  have hbody := Writes.block (e := .start (.ofParts stereoHeader.preamble stereoHeader.waveHeader
      ⟨44100, 16⟩)) (.fixed 1 1) [3, 5, 7, 9] (by decide) (hall (by decide)) (by decide) (by decide)
    (.block .zero [0, 0, 0, 0] (by decide) (hall (by decide)) (by decide) (by decide)
      (.bitshift 1 (by decide)
        (.blockSize 1 2 (by decide) (by decide) (by decide) (by decide)
          (.block (.linear [32] 2) [10, 12] (by decide) (hall (by decide)) (by decide) (by decide)
            (.block (.fixed 2 1) [-2, 4] (by decide) (hall (by decide)) (by decide) (by decide)
              (.quit (by decide) [false, false, false, false, false, false]))))))
  have hrounds : ∀ round ∈ ([[[3, 5, 7, 9], [0, 0, 0, 0]], [[10, 12], [-2, 4]]] :
      List (List (List Int16))), round.length = 2 := by decide
  exact decodes_written hheader rfl hrounds hbody 16 (by decide +kernel)
    ⟨by decide, fun _ _ => rfl⟩

end LosslessAudio
