import LosslessAudio.Proofs.Frames
import LosslessAudio.Proofs.Session

/-!
# What a frame holds

A frame ought to hold the blocks that all channels got in one round.  It does where these blocks are
of the same length.  The block size may be reduced within a round, however, and a frame is as long
as blocks are when the last channel gets its block: what goes beyond this of the blocks of other
channels is cut off.

* `Stream.Delivers` — what holds of the blocks and frames of a stream at any time: the channels take
  turns, each frame is made of the blocks of its round (`Frame.MadeOf`), and the blocks of a round
  that is not complete stand where the next frame will take them from.
* `delivers_of_step` — every command keeps it.
* `frames_of_run` — what this comes to for a decoder.
-/

set_option autoImplicit false

namespace LosslessAudio

/-- The samples of a block as a frame holds them. -/
def Block.output (b : Block) : List Int16 :=
  b.shifted.map Frame.clip

@[simp] theorem Block.length_output (b : Block) : b.output.length = b.samples.length := by
  rw [output, List.length_map, Block.length_shifted]

/-- Frame number `i` is made of the blocks that the channels got in round `i`, each up to the length
of the last one. -/
structure Frame.MadeOf (f : Frame) (n : Nat) (blocks : List Block) (i : Nat) : Prop where
  channels : f.channels = n
  blockSize : ∃ b, (blocksOfChannel (n - 1) blocks)[i]? = some b ∧ f.blockSize = b.samples.length
  channel : ∀ c < n, ∃ b, (blocksOfChannel c blocks)[i]? = some b ∧
    f.blockSize ≤ b.samples.length ∧ f.channel c = b.output.take f.blockSize

namespace Stream

/-- What holds of a stream with these blocks and frames at any time. -/
structure Delivers (s : Stream) (blocks : List Block) (frames : List Frame) : Prop where
  sound : s.Sound
  /-- The channels take turns. -/
  turns : blocks.map (·.channel) = (List.range blocks.length).map (· % s.info.channels)
  /-- There is a frame for every complete round. -/
  length : blocks.length = s.info.channels * frames.length + s.round.index
  /-- In the round that is not complete, the channels before the current one have their block. -/
  counts : ∀ c < s.info.channels, (blocksOfChannel c blocks).length =
    frames.length + if c < s.round.index then 1 else 0
  /-- The last block of every channel is still there. -/
  recent : ∀ c h b, s.round.channels[c]? = some h → (blocksOfChannel c blocks).getLast? = some b →
    b.shifted <+: h.block
  /-- Blocks only become shorter. -/
  shrunk : ∀ b ∈ blocks, s.blockSize ≤ b.samples.length
  made : ∀ (i : Nat) (f : Frame), frames[i]? = some f → f.MadeOf s.info.channels blocks i

end Stream

/-! ## One frame -/

/-- A frame takes from a channel what stands at the front of its block. -/
theorem Frame.channel_ofBlocks_of_prefix {hs : List ChannelHistory} {c n : Nat}
    {h : ChannelHistory} (hc : hs[c]? = some h) {b : Block} (hfront : b.shifted <+: h.block)
    (hn : n ≤ b.samples.length) : (ofBlocks hs n).channel c = b.output.take n := by
  obtain ⟨hlt, rfl⟩ := List.getElem?_eq_some_iff.1 hc
  obtain ⟨rest, hblock⟩ := hfront
  have hcurrent : hs[c].current n = b.shifted.take n := by
    rw [ChannelHistory.current, ← hblock, List.take_append_of_le_length]
    rwa [Block.length_shifted]
  rw [channel_ofBlocks hs n hlt, hcurrent, Block.output, ← List.map_take]
  have hlength : (b.shifted.take n).length = n := by
    rw [List.length_take, Block.length_shifted]
    exact Nat.min_eq_left hn
  refine List.ext_getElem ?_ ?_
  · rw [List.length_map, List.length_range, List.length_map, hlength]
  · intro i hi hi'
    rw [List.getElem_map, List.getElem_map, List.getElem_range, List.getD_eq_getElem?_getD,
      List.getElem?_eq_getElem, Option.getD_some]

/-- More blocks do not change what the earlier ones are. -/
theorem getElem?_blocksOfChannel_append {c i : Nat} {blocks : List Block} {b : Block}
    (h : (blocksOfChannel c blocks)[i]? = some b) (more : List Block) :
    (blocksOfChannel c (blocks ++ more))[i]? = some b := by
  obtain ⟨hlt, -⟩ := List.getElem?_eq_some_iff.1 h
  rw [blocksOfChannel_append, List.getElem?_append_left hlt]
  exact h

theorem Frame.MadeOf.append {f : Frame} {n i : Nat} {blocks : List Block}
    (h : f.MadeOf n blocks i) (more : List Block) : f.MadeOf n (blocks ++ more) i := by
  refine ⟨h.channels, ?_, ?_⟩
  · obtain ⟨b, hb, hsize⟩ := h.blockSize
    exact ⟨b, getElem?_blocksOfChannel_append hb more, hsize⟩
  · intro c hc
    obtain ⟨b, hb, hchannel⟩ := h.channel c hc
    exact ⟨b, getElem?_blocksOfChannel_append hb more, hchannel⟩

/-! ## One command -/

namespace Stream

variable {s s' : Stream} {blocks : List Block} {frames : List Frame}

theorem delivers_start [Memory] {info : StreamInfo} (hinfo : info.Sound)
    (hstart : start info = .ok s) :
    s.Delivers [] [] where
  sound := sound_start hinfo hstart
  turns := rfl
  length := by rw [eq_of_start hstart]; rfl
  counts c _ := by rw [eq_of_start hstart]; rfl
  recent _ _ _ _ h := by cases h
  shrunk _ h := by cases h
  made _ _ h := by cases h

variable (h : s.Delivers blocks frames) {b : Block} (hb : s.Takes b)
include h hb

/-- The block is that of the channel whose turn it is. -/
theorem Delivers.turns_behind : (blocks ++ [b]).map (·.channel) =
    (List.range (blocks ++ [b]).length).map (· % s.info.channels) := by
  have hlt : s.round.index < s.info.channels := by
    rw [← h.sound.channels]
    exact s.round.index_lt_length_channels
  have hturn : blocks.length % s.info.channels = s.round.index := by
    rw [h.length, Nat.mul_add_mod, Nat.mod_eq_of_lt hlt]
  rw [List.map_append, h.turns, List.length_append, List.length_singleton, List.range_succ,
    List.map_append, List.map_singleton, List.map_singleton, hturn, hb.channel]

theorem Delivers.recent_behind (c : Nat) (history : ChannelHistory) (b' : Block)
    (hc : (s.behind b).round.channels[c]? = some history)
    (hb' : (blocksOfChannel c (blocks ++ [b])).getLast? = some b') :
    b'.shifted <+: history.block := by
  rw [behind, Round.getElem?_channels_next] at hc
  rw [blocksOfChannel_append_singleton, hb.channel] at hb'
  by_cases hturn : c = s.round.index
  · rw [if_pos hturn] at hc
    rw [if_pos hturn.symm, List.getLast?_concat] at hb'
    cases hc
    cases hb'
    exact List.prefix_append _ _
  · rw [if_neg hturn] at hc
    rw [if_neg (Ne.symm hturn)] at hb'
    exact h.recent c history b' hc hb'

theorem Delivers.shrunk_behind : ∀ b' ∈ blocks ++ [b], s.blockSize ≤ b'.samples.length := by
  intro b' hb'
  rcases List.mem_append.1 hb' with hb' | hb'
  · exact h.shrunk b' hb'
  · obtain rfl := List.mem_singleton.1 hb'
    exact Nat.le_of_eq hb.length.symm

/-- How many blocks each channel has behind a block. -/
theorem Delivers.counts_behind {c : Nat} (hc : c < s.info.channels) :
    (blocksOfChannel c (blocks ++ [b])).length =
      frames.length + if c < s.round.index + 1 then 1 else 0 := by
  have hcount := h.counts c hc
  rw [blocksOfChannel_append_singleton, hb.channel]
  split
  · rename_i hturn
    rw [List.length_append, hcount, if_neg (by omega), if_pos (by omega)]
    rfl
  · rename_i hturn
    rw [hcount]
    split <;> split <;> omega

/-- The frame that the block of the last channel completes. -/
theorem Delivers.madeOf_behind (hlast : s.round.isLast = true) :
    (Frame.ofBlocks (s.behind b).round.channels s.blockSize).MadeOf s.info.channels
      (blocks ++ [b]) frames.length := by
  have hindex : s.round.index + 1 = s.info.channels := by
    rw [← h.sound.channels]
    exact s.round.isLast_iff.1 hlast
  have hchannels : (s.behind b).round.channels.length = s.info.channels :=
    (s.round.length_channels_next _).trans h.sound.channels
  -- in a complete round every channel has one block more than there were frames
  have hblock {c : Nat} (hc : c < s.info.channels) : ∃ b',
      (blocksOfChannel c (blocks ++ [b]))[frames.length]? = some b' ∧
        (blocksOfChannel c (blocks ++ [b])).getLast? = some b' := by
    have hcount := h.counts_behind hb hc
    rw [if_pos (by omega)] at hcount
    have hplace : (blocksOfChannel c (blocks ++ [b])).length - 1 = frames.length := by omega
    refine ⟨_, List.getElem?_eq_getElem (by omega), ?_⟩
    rw [List.getLast?_eq_getElem?, hplace]
    exact List.getElem?_eq_getElem (by omega)
  refine ⟨hchannels, ?_, ?_⟩
  · refine ⟨b, ?_, hb.length.symm⟩
    obtain ⟨b', hb', hlast'⟩ := hblock (c := s.info.channels - 1) (by omega)
    rw [blocksOfChannel_append_singleton, if_pos (by rw [hb.channel]; omega),
      List.getLast?_concat] at hlast'
    cases hlast'
    exact hb'
  · intro c hc
    obtain ⟨b', hb', hlast'⟩ := hblock hc
    have hc' : c < (s.behind b).round.channels.length := hchannels.symm ▸ hc
    have hget := List.getElem?_eq_getElem hc'
    have hmem : b' ∈ blocks ++ [b] := (List.mem_filter.1 (List.mem_of_getLast? hlast')).1
    have hle := h.shrunk_behind hb b' hmem
    exact ⟨b', hb', hle,
      Frame.channel_ofBlocks_of_prefix hget (h.recent_behind hb c _ b' hget hlast') hle⟩

/-- The block of the last channel completes the round and a frame, that of any other channel
neither. -/
theorem Delivers.round_behind :
    ((s.behind b).round.index = 0 ∧ s.round.index + 1 = s.info.channels ∧ ∃ f,
      (s.effectOf b).frames = [f] ∧ f.MadeOf s.info.channels (blocks ++ [b]) frames.length) ∨
    ((s.behind b).round.index = s.round.index + 1 ∧ s.round.index + 1 ≠ s.info.channels ∧
      (s.effectOf b).frames = []) := by
  have hindex : (s.behind b).round.index = if s.round.isLast then 0 else s.round.index + 1 :=
    s.round.index_next _
  have hiff := s.round.isLast_iff
  rw [h.sound.channels] at hiff
  rw [effectOf]
  by_cases hlast : s.round.isLast = true
  · rw [if_pos hlast] at hindex ⊢
    exact .inl ⟨hindex, hiff.1 hlast, _, rfl, h.madeOf_behind hb hlast⟩
  · rw [if_neg hlast] at hindex ⊢
    exact .inr ⟨hindex, fun heq => hlast (hiff.2 heq), rfl⟩

theorem Delivers.behind : (s.behind b).Delivers (blocks ++ [b])
    (frames ++ (s.effectOf b).frames) := by
  have hinfo : (s.behind b).info = s.info := rfl
  have hlength : (blocks ++ [b]).length = s.info.channels * frames.length + s.round.index + 1 := by
    rw [List.length_append, h.length, List.length_singleton]
  have hlt := s.round.index_lt_length_channels
  rw [h.sound.channels] at hlt
  have hsound := sound_of_step h.sound (.audio b hb)
  have hmade (i : Nat) (f : Frame) (hf : frames[i]? = some f) :=
    (h.made i f hf).append [b]
  obtain ⟨hindex, hround, f, hframes, hf⟩ | ⟨hindex, hround, hframes⟩ := h.round_behind hb
  · rw [hframes]
    refine ⟨hsound, h.turns_behind hb, ?_, ?_, h.recent_behind hb, h.shrunk_behind hb, ?_⟩
    · rw [hinfo, hlength, hindex, List.length_append, List.length_singleton, Nat.mul_add,
        Nat.mul_one, ← hround]
      rfl
    · intro c hc
      rw [h.counts_behind hb hc, hindex, List.length_append, List.length_singleton]
      rw [hinfo] at hc
      rw [if_pos (by omega), if_neg (Nat.not_lt_zero c)]
    · intro i f' hf'
      rcases Nat.lt_or_ge i frames.length with hi | hi
      · rw [List.getElem?_append_left hi] at hf'
        exact hmade i f' hf'
      · rw [List.getElem?_append_right hi, List.getElem?_singleton] at hf'
        split at hf'
        · rename_i hzero
          obtain rfl : i = frames.length := by omega
          cases hf'
          exact hf
        · cases hf'
  · rw [hframes, List.append_nil]
    refine ⟨hsound, h.turns_behind hb, ?_, ?_, h.recent_behind hb, h.shrunk_behind hb, hmade⟩
    · rw [hinfo, hlength, hindex, Nat.add_assoc]
    · intro c hc
      rw [h.counts_behind hb hc, hindex]

omit h hb

theorem Delivers.append_nothing (h : s.Delivers blocks frames) :
    s.Delivers (blocks ++ (none : Option Block).toList) (frames ++ []) := by
  rw [Option.toList_none, List.append_nil, List.append_nil]
  exact h

/-- **Every command keeps the account of blocks and frames.** -/
theorem delivers_of_step (h : s.Delivers blocks frames) {b : Option Block} {e : Command.Effect}
    (hstep : s.Step b e s') : s'.Delivers (blocks ++ b.toList) (frames ++ e.frames) := by
  have hsound := sound_of_step h.sound hstep
  cases hstep with
  | audio b hb => exact h.behind hb
  | verbatim | quit => exact h.append_nothing
  | bitshift n hle =>
    exact Delivers.append_nothing
      ⟨hsound, h.turns, h.length, h.counts, h.recent, h.shrunk, h.made⟩
  | blockSize n hpos hle =>
    exact Delivers.append_nothing ⟨hsound, h.turns, h.length, h.counts, h.recent,
      fun b hb => Nat.le_trans hle (h.shrunk b hb), h.made⟩

theorem delivers_of_steps [Memory] {info : StreamInfo} (hinfo : info.Sound) {s₀ : Stream}
    (hstart : start info = .ok s₀) (hsteps : s₀.Steps blocks frames s) :
    s.Delivers blocks frames := by
  induction hsteps with
  | refl => exact delivers_start hinfo hstart
  | step _ hstep ih => exact delivers_of_step ih hstep

end Stream

/-! ## All frames -/

section

variable {α β γ : Type} {f : α → List γ} {g : β → List γ}

theorem length_flatMap_le {xs : List α} {ys : List β} (hlength : xs.length = ys.length)
    (hle : ∀ (i : Nat) x y, xs[i]? = some x → ys[i]? = some y → (f x).length ≤ (g y).length) :
    (xs.flatMap f).length ≤ (ys.flatMap g).length := by
  induction xs generalizing ys with
  | nil => exact Nat.zero_le _
  | cons x xs ih =>
    cases ys with
    | nil => cases hlength
    | cons y ys =>
      have hhead := hle 0 x y rfl rfl
      have htail := ih (Nat.succ.inj hlength) fun i => hle (i + 1)
      rw [List.flatMap_cons, List.flatMap_cons, List.length_append, List.length_append]
      omega

/-- If nothing is longer than it should be, then together all is there exactly if each is. -/
theorem flatMap_eq_iff {xs : List α} {ys : List β} (hlength : xs.length = ys.length)
    (hfront : ∀ (i : Nat) x y, xs[i]? = some x → ys[i]? = some y → f x <+: g y) :
    xs.flatMap f = ys.flatMap g ↔
      ∀ (i : Nat) x y, xs[i]? = some x → ys[i]? = some y → f x = g y := by
  induction xs generalizing ys with
  | nil =>
    obtain rfl : ys = [] := List.length_eq_zero_iff.1 hlength.symm
    exact ⟨fun _ _ _ _ hx => (by cases hx), fun _ => rfl⟩
  | cons x xs ih =>
    cases ys with
    | nil => cases hlength
    | cons y ys =>
      have hlength' := Nat.succ.inj hlength
      have htail := ih hlength' fun i => hfront (i + 1)
      have hle := length_flatMap_le hlength' fun i x y hx hy =>
        (hfront (i + 1) x y hx hy).length_le
      rw [List.flatMap_cons, List.flatMap_cons]
      constructor
      · intro heq
        have hsum := congrArg List.length heq
        rw [List.length_append, List.length_append] at hsum
        have hfirst := (hfront 0 x y rfl rfl).eq_of_length_le (by omega)
        rw [hfirst] at heq
        have hrest := htail.1 (List.append_cancel_left heq)
        intro i x' y' hx hy
        cases i with
        | zero => cases hx; cases hy; exact hfirst
        | succ i => exact hrest i x' y' hx hy
      · intro hall
        rw [hall 0 x y rfl rfl, htail.2 fun i => hall (i + 1)]

end

theorem Frame.MadeOf.exists_blocks {f : Frame} {n i c : Nat} {blocks : List Block}
    (h : f.MadeOf n blocks i) (hc : c < n) : ∃ b b', (blocksOfChannel c blocks)[i]? = some b ∧
      (blocksOfChannel (n - 1) blocks)[i]? = some b' ∧ f.channels = n ∧
      f.blockSize = b'.samples.length ∧ f.channel c = b.output.take b'.samples.length ∧
      (f.channel c = b.output ↔ b.samples.length = b'.samples.length) := by
  obtain ⟨b', hb', hsize⟩ := h.blockSize
  obtain ⟨b, hb, hle, hchannel⟩ := h.channel c hc
  rw [hsize] at hle hchannel
  refine ⟨b, b', hb, hb', h.channels, hsize, hchannel, ?_⟩
  rw [hchannel]
  constructor
  · intro heq
    have hlength := congrArg List.length heq
    rw [List.length_take, Block.length_output] at hlength
    omega
  · intro heq
    exact List.take_of_length_le (by rw [Block.length_output]; omega)

/-- All samples of the complete rounds are given back exactly if no block is longer than the last
one of its round. -/
theorem Stream.Delivers.flatMap_channel_eq_iff {s : Stream} {blocks : List Block}
    {frames : List Frame} (h : s.Delivers blocks frames) {c : Nat} (hc : c < s.info.channels) :
    frames.flatMap (·.channel c) =
        ((blocksOfChannel c blocks).take frames.length).flatMap (·.output) ↔
      ∀ (i : Nat) (b b' : Block), (blocksOfChannel c blocks)[i]? = some b →
        (blocksOfChannel (s.info.channels - 1) blocks)[i]? = some b' →
          b.samples.length = b'.samples.length := by
  have hmine := h.counts c hc
  have hlast := h.counts (s.info.channels - 1) (by omega)
  have hlt := s.round.index_lt_length_channels
  rw [h.sound.channels] at hlt
  rw [if_neg (by omega), Nat.add_zero] at hlast
  have hlength : frames.length = ((blocksOfChannel c blocks).take frames.length).length := by
    rw [List.length_take, hmine]
    omega
  -- what frame number `i` shows of the block of round `i`
  have hshown (i : Nat) (f : Frame) (b : Block) (hf : frames[i]? = some f)
      (hb : (blocksOfChannel c blocks)[i]? = some b) :
      ∃ b', (blocksOfChannel (s.info.channels - 1) blocks)[i]? = some b' ∧
        f.channel c = b.output.take b'.samples.length ∧
        (f.channel c = b.output ↔ b.samples.length = b'.samples.length) := by
    obtain ⟨b₁, b', hb₁, hb', -, -, hcut, hiff⟩ := (h.made i f hf).exists_blocks hc
    cases hb₁.symm.trans hb
    exact ⟨b', hb', hcut, hiff⟩
  have htaken {i : Nat} {b : Block}
      (hb : ((blocksOfChannel c blocks).take frames.length)[i]? = some b) :
      (blocksOfChannel c blocks)[i]? = some b := by
    rw [List.getElem?_take] at hb
    split at hb
    · exact hb
    · cases hb
  have hfront (i : Nat) (f : Frame) (b : Block) (hf : frames[i]? = some f)
      (hb : ((blocksOfChannel c blocks).take frames.length)[i]? = some b) :
      f.channel c <+: b.output := by
    obtain ⟨b', -, hcut, -⟩ := hshown i f b hf (htaken hb)
    rw [hcut]
    exact List.take_prefix _ _
  rw [flatMap_eq_iff hlength hfront]
  constructor
  · intro hall i b b' hb hb'
    obtain ⟨hi, -⟩ := List.getElem?_eq_some_iff.1 hb'
    rw [hlast] at hi
    have hf := List.getElem?_eq_getElem hi
    obtain ⟨b₁, hb₁, -, hiff⟩ := hshown i _ b hf hb
    cases hb₁.symm.trans hb'
    exact hiff.1 (hall i _ b hf (by rw [List.getElem?_take_of_lt hi, hb]))
  · intro hall i f b hf hb
    obtain ⟨b', hb', -, hiff⟩ := hshown i f b hf (htaken hb)
    exact hiff.2 (hall i b b' (htaken hb) hb')

/-- **What the frames of a decoder hold.**  Whatever is done with a decoder, the channels take
turns, and there is a frame for every complete round.  Each channel of the frame is the block that
the channel got in this round up to the length of the last block of the round, and therefore the
whole block exactly if the two are of the same length.  All samples of a channel in complete rounds
are given back exactly if this is so in every round. -/
theorem frames_of_run [Memory] (frameSize : Nat) (failLevel : Level) (calls : List Call)
    {s : Stream}
    (hs : ((Session.start frameSize failLevel).run calls).decoder.stream = some s) {c : Nat}
    (hc : c < s.info.channels) :
    let t := (Session.start frameSize failLevel).run calls
    let mine := blocksOfChannel c t.blocks
    let last := blocksOfChannel (s.info.channels - 1) t.blocks
    t.blocks.map (·.channel) = (List.range t.blocks.length).map (· % s.info.channels) ∧
      t.frames.length = t.blocks.length / s.info.channels ∧
      (∀ (i : Nat) (f : Frame), t.frames[i]? = some f → ∃ b b', mine[i]? = some b ∧
        last[i]? = some b' ∧ f.channels = s.info.channels ∧ f.blockSize = b'.samples.length ∧
        f.channel c = b.output.take b'.samples.length ∧
        (f.channel c = b.output ↔ b.samples.length = b'.samples.length)) ∧
      (t.frames.flatMap (·.channel c) = (mine.take t.frames.length).flatMap (·.output) ↔
        ∀ (i : Nat) (b b' : Block), mine[i]? = some b → last[i]? = some b' →
          b.samples.length = b'.samples.length) := by
  obtain ⟨info, s₀, hinfo, hstart, hsteps⟩ := Session.steps_of_run hs
  have h := Stream.delivers_of_steps hinfo hstart hsteps
  have hlt := s.round.index_lt_length_channels
  rw [h.sound.channels] at hlt
  refine ⟨h.turns, ?_, ?_, h.flatMap_channel_eq_iff hc⟩
  · rw [h.length, Nat.mul_add_div (Nat.zero_lt_of_lt hc), Nat.div_eq_of_lt hlt, Nat.add_zero]
  · intro i f hf
    exact (h.made i f hf).exists_blocks hc

/-- A stereo stream of one round.  Between the block of four samples for the left channel and that
for the right one, the block size is reduced to three. -/
def unequalBlocks : Bytes :=
  [0x61, 0x6A, 0x6B, 0x67, 0x02, 0xCB, 0xB6, 0x4D, 0x34, 0xD0, 0xAB, 0x2A, 0x54, 0x9A, 0x35, 0x1A,
    0x79, 0x00, 0x80, 0x40, 0x2A, 0xF4, 0x1A, 0xB5, 0x16, 0xCD, 0x6D, 0xBA, 0x48, 0x22, 0x10, 0x08,
    0x04, 0x02, 0x03, 0x00, 0x81, 0x40, 0x28, 0x9A, 0xC8, 0x04, 0x02, 0x21, 0xB1, 0x81, 0x40, 0x20,
    0x90, 0x08, 0x84, 0x02, 0xC9, 0x61, 0xBA, 0x58, 0x63, 0x10, 0x08, 0x04, 0x02, 0x4E, 0x46, 0x22,
    0xD7, 0x24, 0xC2, 0x0C, 0x80]

open scoped Memory

/-- The session in which all of this stream is decoded. -/
def unequalBlocksSession : Session :=
  (Session.start PendingInput.defaultFrameSize .error).run
    [.decode (some unequalBlocks), .decode none, .decode none, .decode none]

theorem frames_of_run_unequalBlocks :
    ∃ s, unequalBlocksSession.decoder.stream = some s ∧ 0 < s.info.channels ∧
      let mine := blocksOfChannel 0 unequalBlocksSession.blocks
      let last := blocksOfChannel (s.info.channels - 1) unequalBlocksSession.blocks
      unequalBlocksSession.blocks.map (·.channel) =
          (List.range unequalBlocksSession.blocks.length).map (· % s.info.channels) ∧
        unequalBlocksSession.frames.length =
          unequalBlocksSession.blocks.length / s.info.channels ∧
        (∀ (i : Nat) (f : Frame), unequalBlocksSession.frames[i]? = some f → ∃ b b',
          mine[i]? = some b ∧ last[i]? = some b' ∧ f.channels = s.info.channels ∧
          f.blockSize = b'.samples.length ∧ f.channel 0 = b.output.take b'.samples.length ∧
          (f.channel 0 = b.output ↔ b.samples.length = b'.samples.length)) ∧
        (unequalBlocksSession.frames.flatMap (·.channel 0) =
            (mine.take unequalBlocksSession.frames.length).flatMap (·.output) ↔
          ∀ (i : Nat) (b b' : Block), mine[i]? = some b → last[i]? = some b' →
            b.samples.length = b'.samples.length) := by
  have hchannels : unequalBlocksSession.decoder.stream.map (·.info.channels) = some 2 := by
    decide +kernel
  obtain ⟨s, hs, htwo⟩ := Option.map_eq_some_iff.1 hchannels
  have hpos : 0 < s.info.channels := by rw [htwo]; decide
  exact ⟨s, hs, hpos, frames_of_run _ _ _ hs hpos⟩

/-- **A frame does not always hold the whole blocks of its round.**  The left channel gets 1, 2, 3
and 4, and the frame holds 1, 2 and 3. -/
theorem frames_lose_samples :
    ¬∀ (frameSize : Nat) (failLevel : Level) (calls : List Call) (s : Stream) (i c : Nat)
      (f : Frame),
      ((Session.start frameSize failLevel).run calls).decoder.stream = some s →
      c < s.info.channels →
      ((Session.start frameSize failLevel).run calls).frames[i]? = some f →
      ∃ b, (blocksOfChannel c ((Session.start frameSize failLevel).run calls).blocks)[i]? = some b ∧
        f.channel c = b.output := by
  intro hlaw
  have hchannels : unequalBlocksSession.decoder.stream.map (·.info.channels) = some 2 := by
    decide +kernel
  have hshown : unequalBlocksSession.frames[0]?.map (·.channel 0) = some [1, 2, 3] := by
    decide +kernel
  have hdecoded : (blocksOfChannel 0 unequalBlocksSession.blocks)[0]?.map (·.output) =
      some [1, 2, 3, 4] := by
    decide +kernel
  obtain ⟨s, hs, htwo⟩ := Option.map_eq_some_iff.1 hchannels
  obtain ⟨f, hf, hchannel⟩ := Option.map_eq_some_iff.1 hshown
  obtain ⟨b, hb, hwhole⟩ := hlaw _ _ _ s 0 0 f hs (by rw [htwo]; decide) hf
  have hb' : (blocksOfChannel 0 unequalBlocksSession.blocks)[0]? = some b := hb
  rw [hb', Option.map_some, Option.some.injEq, ← hwhole, hchannel] at hdecoded
  exact absurd hdecoded (by decide)

end LosslessAudio
