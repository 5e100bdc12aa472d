import LosslessAudio.Proofs.Session

/-!
# What a context holds

The context of a channel ought to hold the last samples of the channel.  It does where blocks are at
least as long as the context.  A shorter block leaves part of the old context in place, and this
part may be damaged: a linear predictor takes the offset off the samples that it looks at, and a
block that was decoded does not put it back.

`missingOffset` is what a sample in the context lacks.  `remembers_of_steps` says that a context
holds the last samples up to just that, and `context_eq_lastSamples_iff` that it holds the last
samples exactly where nothing is missing.
-/

set_option autoImplicit false

namespace LosslessAudio

/-! ## The samples of a channel -/

/-- The samples of some blocks in order, without the dropped low bits. -/
def samplesOf (blocks : List Block) : List Int32 :=
  blocks.flatMap (·.samples)

/-- The last `n` samples, with zeros before the first one. -/
def lastSamples (n : Nat) (samples : List Int32) : List Int32 :=
  (List.replicate n 0 ++ samples).drop samples.length

theorem length_lastSamples (n : Nat) (samples : List Int32) :
    (lastSamples n samples).length = n := by
  rw [lastSamples, List.length_drop, List.length_append, List.length_replicate,
    Nat.add_sub_cancel]

theorem reverse_lastSamples (n : Nat) (samples : List Int32) :
    (lastSamples n samples).reverse = (samples.reverse ++ List.replicate n 0).take n := by
  rw [lastSamples, List.reverse_drop, List.reverse_append, List.reverse_replicate,
    List.length_append, List.length_replicate, Nat.add_sub_cancel]

theorem getElem?_reverse_lastSamples {n j : Nat} (hj : j < n) (samples : List Int32) :
    (lastSamples n samples).reverse[j]? = some (samples.reverse.getD j 0) := by
  rw [reverse_lastSamples, List.getElem?_take_of_lt hj, List.getD_eq_getElem?_getD]
  by_cases h : j < samples.reverse.length
  · rw [List.getElem?_append_left h, List.getElem?_eq_getElem h, Option.getD_some]
  · rw [List.getElem?_append_right (Nat.le_of_not_lt h), List.getElem?_replicate,
      if_pos (by omega), List.getElem?_eq_none (Nat.le_of_not_lt h), Option.getD_none]

/-! ## What is missing -/

/-- How much the context lacks of the sample `j` places before its end, given the blocks of the
channel, the last one first: the offsets of all later blocks that looked at this sample. -/
def missingOffset : List Block → Nat → Int32
  | [], _ => 0
  | b :: earlier, j =>
    if j < b.samples.length then 0
    else
      missingOffset earlier (j - b.samples.length) +
        if j - b.samples.length < b.predictor.order then b.predictor.removedOffset b.offset else 0

/-- A block that takes nothing off the context, or leaves nothing of it. -/
def Block.Harmless (b : Block) (contextLength : Nat) : Prop :=
  contextLength ≤ b.samples.length ∨ b.predictor.order = 0 ∨ b.predictor.removedOffset b.offset = 0

/-- Nothing is missing behind harmless blocks. -/
theorem missingOffset_eq_zero {n : Nat} {earlier : List Block}
    (h : ∀ b ∈ earlier, b.Harmless n) : ∀ j < n, missingOffset earlier j = 0 := by
  induction earlier with
  | nil => exact fun _ _ => rfl
  | cons b earlier ih =>
    intro j hj
    rw [missingOffset]
    split
    · rfl
    · rename_i hlong
      have ih := ih (fun b' hb' => h b' (List.mem_cons_of_mem _ hb')) (j - b.samples.length)
        (by omega)
      rw [ih, Int32.zero_add]
      rcases h b List.mem_cons_self with hlength | horder | hoffset
      · omega
      · rw [if_neg (by omega)]
      · rw [hoffset]
        split <;> rfl

/-- The context of a history holds the last samples of `earlier`, up to what is missing.  The last
block comes first. -/
def ChannelHistory.Remembers (h : ChannelHistory) (earlier : List Block) : Prop :=
  ∀ j < h.context.length, h.context.reverse[j]? =
    some ((samplesOf earlier.reverse).reverse.getD j 0 - missingOffset earlier j)

/-! ## One block -/

theorem reverse_samplesOf_cons (b : Block) (earlier : List Block) :
    (samplesOf (b :: earlier).reverse).reverse =
      b.samples.reverse ++ (samplesOf earlier.reverse).reverse := by
  rw [samplesOf, samplesOf, List.reverse_cons, List.flatMap_append, List.reverse_append,
    List.flatMap_singleton]

theorem Block.reverse_contextAfter (b : Block) (context : List Int32) :
    (b.contextAfter context).reverse =
      (b.samples.reverse ++ (b.predictor.removeOffset b.offset context).reverse).take
        context.length := by
  rw [contextAfter, List.reverse_drop, List.reverse_append, List.length_append,
    Predictor.length_removeOffset, Nat.add_sub_cancel]

/-- Where a predictor looks, the offset is taken off. -/
theorem Predictor.getElem?_reverse_removeOffset (p : Predictor) (offset : Int32)
    (context : List Int32) (j : Nat) :
    (p.removeOffset offset context).reverse[j]? = context.reverse[j]?.map fun x =>
      x - if j < p.order then p.removedOffset offset else 0 := by
  rw [reverse_removeOffset]
  have hlength : ((context.reverse.take p.order).map (· - p.removedOffset offset)).length =
      min p.order context.reverse.length := by
    rw [List.length_map, List.length_take]
  by_cases hj : j < p.order
  · rw [if_pos hj, List.getElem?_append, hlength]
    split
    · rw [List.getElem?_map, List.getElem?_take_of_lt hj]
    · rw [List.getElem?_drop, List.getElem?_eq_none (by omega), List.getElem?_eq_none (by omega)]
      rfl
  · have hplace : p.order + (j - p.order) = j := by omega
    have hsame (x : Int32) : x - 0 = x := Int32.sub_zero x
    rw [if_neg hj, List.getElem?_append_right (by omega), hlength]
    simp only [hsame, Option.map_id', List.getElem?_drop]
    rcases Nat.le_total p.order context.reverse.length with hle | hle
    · rw [Nat.min_eq_left hle, hplace]
    · rw [List.getElem?_eq_none (by omega), List.getElem?_eq_none (by omega)]

theorem sub_sub (x y z : Int32) : x - y - z = x - (y + z) := by
  grind

/-- **What a block does to the memory of its channel.** -/
theorem remembers_contextAfter {h : ChannelHistory} {earlier : List Block}
    (hh : h.Remembers earlier) (b : Block) :
    ChannelHistory.Remembers { h with context := b.contextAfter h.context } (b :: earlier) := by
  intro j hj
  have hj : j < h.context.length := (b.length_contextAfter h.context) ▸ hj
  dsimp only
  rw [b.reverse_contextAfter, List.getElem?_take_of_lt hj, reverse_samplesOf_cons, missingOffset,
    List.getD_eq_getElem?_getD]
  by_cases hnew : j < b.samples.length
  · have hlen : j < b.samples.reverse.length := by rwa [List.length_reverse]
    rw [if_pos hnew, Int32.sub_zero, List.getElem?_append_left hlen,
      List.getElem?_append_left hlen, List.getElem?_eq_getElem hlen, Option.getD_some]
  · have hlen : b.samples.reverse.length ≤ j := by
      rw [List.length_reverse]
      exact Nat.le_of_not_lt hnew
    rw [if_neg hnew, List.getElem?_append_right hlen, List.getElem?_append_right hlen,
      List.length_reverse, Predictor.getElem?_reverse_removeOffset, hh _ (by omega),
      Option.map_some, ← List.getD_eq_getElem?_getD, sub_sub]

/-! ## Any number of blocks -/

theorem remembers_initial (contextLength blockSize : Nat) (meanCount mean : Int32) :
    (ChannelHistory.initial contextLength blockSize meanCount mean).Remembers [] := by
  intro j hj
  have hj : j < contextLength := List.length_replicate (n := contextLength) ▸ hj
  rw [ChannelHistory.initial, List.reverse_replicate, List.getElem?_replicate, if_pos hj]
  show some 0 = some ((0 : Int32) - 0)
  rw [Int32.sub_zero]

theorem remembers_of_step {s s' : Stream} {blocks : List Block}
    (hs : ∀ (c : Nat) (h : ChannelHistory), s.round.channels[c]? = some h →
      h.Remembers (blocksOfChannel c blocks).reverse)
    {b : Option Block} {e : Command.Effect} (hstep : s.Step b e s') (c : Nat) (h : ChannelHistory)
    (hc : s'.round.channels[c]? = some h) :
    h.Remembers (blocksOfChannel c (blocks ++ b.toList)).reverse := by
  cases hstep with
  | audio b hb =>
    rw [Stream.behind, Round.getElem?_channels_next] at hc
    rw [Option.toList_some, blocksOfChannel_append_singleton, hb.channel]
    by_cases hturn : c = s.round.index
    · rw [if_pos hturn] at hc
      cases hc
      rw [if_pos hturn.symm, List.reverse_append, List.reverse_singleton, List.singleton_append]
      have hcurrent := hs c s.round.current (hturn ▸ s.round.getElem?_channels_index)
      exact remembers_contextAfter hcurrent b
    · rw [if_neg hturn] at hc
      rw [if_neg (Ne.symm hturn)]
      exact hs c h hc
  | _ =>
    rw [Option.toList_none, List.append_nil]
    exact hs c h hc

/-- **What a context holds**: the last samples, up to what is missing. -/
theorem remembers_of_steps [Memory] {info : StreamInfo} (hinfo : info.Sound) {s₀ s : Stream}
    (hstart : Stream.start info = .ok s₀) {blocks : List Block} {frames : List Frame}
    (hsteps : s₀.Steps blocks frames s) (c : Nat) (h : ChannelHistory)
    (hc : s.round.channels[c]? = some h) : h.Remembers (blocksOfChannel c blocks).reverse := by
  induction hsteps generalizing c h with
  | refl =>
    rw [Stream.channels_start hinfo hstart] at hc
    rw [List.eq_of_mem_replicate (List.mem_of_getElem? hc)]
    exact remembers_initial _ _ _ _
  | step _ hstep ih => exact remembers_of_step ih hstep c h hc

/-- Places below 0 lie in the context. -/
theorem ChannelHistory.sample?_neg (h : ChannelHistory) {j : Nat} (hj : j < h.context.length) :
    h.sample? (-1 - j) = h.context.reverse[j]? := by
  have hplace : ((h.context.length : Int) + (-1 - j)).toNat = h.context.length - 1 - j := by omega
  rw [sample?, if_neg (by omega), hplace, samples, List.getElem?_append_left (by omega),
    List.getElem?_reverse hj]

theorem eq_lastSamples_iff {h : ChannelHistory} {blocks : List Block}
    (hh : h.Remembers blocks.reverse) :
    h.context = lastSamples h.context.length (samplesOf blocks) ↔
      ∀ j < h.context.length, missingOffset blocks.reverse j = 0 := by
  rw [ChannelHistory.Remembers, List.reverse_reverse] at hh
  constructor
  · intro heq j hj
    have hx := hh j hj
    rw [congrArg List.reverse heq, getElem?_reverse_lastSamples hj, Option.some.injEq] at hx
    grind
  · intro hzero
    refine List.reverse_inj.1 (List.ext_getElem? fun j => ?_)
    by_cases hj : j < h.context.length
    · rw [hh j hj, getElem?_reverse_lastSamples hj, hzero j hj, Int32.sub_zero]
    · rw [List.getElem?_eq_none (by rw [List.length_reverse]; omega),
        List.getElem?_eq_none (by rw [List.length_reverse, length_lastSamples]; omega)]

/-- **What the contexts of a decoder hold.**  Whatever is done with a decoder, the place `-1 - j` in
the history of a channel, with `j` below the length of the context, holds the sample `j` places
before the last one that was decoded for the channel, up to what is missing.  The context therefore
is the end of all samples, with zeros in front, exactly where nothing is missing, as it is behind
harmless blocks. -/
theorem context_eq_lastSamples_iff [Memory] (frameSize : Nat) (failLevel : Level)
    (calls : List Call)
    {s : Stream} (hs : ((Session.start frameSize failLevel).run calls).decoder.stream = some s)
    {c : Nat} (hc : c < s.info.channels) :
    let blocks := blocksOfChannel c ((Session.start frameSize failLevel).run calls).blocks
    let n := s.info.contextLength
    ∃ h, s.round.channels[c]? = some h ∧ h.context.length = n ∧
      (∀ j < n, h.sample? (-1 - j) =
        some ((samplesOf blocks).reverse.getD j 0 - missingOffset blocks.reverse j)) ∧
      (h.context = lastSamples n (samplesOf blocks) ↔
        ∀ j < n, missingOffset blocks.reverse j = 0) ∧
      ((∀ b ∈ blocks, b.Harmless n) → h.context = lastSamples n (samplesOf blocks)) := by
  obtain ⟨info, s₀, hinfo, hstart, hsteps⟩ := Session.steps_of_run hs
  have hsound := hsteps.sound (Stream.sound_start hinfo hstart)
  have hin : c < s.round.channels.length := hsound.channels ▸ hc
  have hget := List.getElem?_eq_getElem hin
  have hlength := (hsound.histories _ (List.getElem_mem hin)).context
  have hremembers := remembers_of_steps hinfo hstart hsteps c _ hget
  have hiff := eq_lastSamples_iff hremembers
  rw [hlength] at hiff
  refine ⟨_, hget, hlength, ?_, hiff, ?_⟩
  · intro j hj
    rw [ChannelHistory.sample?_neg _ (hlength.symm ▸ hj), hremembers j (hlength.symm ▸ hj),
      List.reverse_reverse]
  · intro hharmless
    have hzero : ∀ b ∈ (blocksOfChannel c
        ((Session.start frameSize failLevel).run calls).blocks).reverse,
          b.Harmless s.info.contextLength :=
      fun b hb => hharmless b (List.mem_reverse.1 hb)
    exact hiff.2 (missingOffset_eq_zero hzero)

/-- A mono stream of two blocks of two samples each, which are shorter than the context of three.
The second block is predicted linearly, with an offset of 15, from the last sample of the first. -/
def shortBlocks : Bytes :=
  [0x61, 0x6A, 0x6B, 0x67, 0x02, 0xCB, 0xAE, 0xDA, 0x6B, 0xA1, 0x56, 0x54, 0xA9, 0x34, 0x6A, 0x34,
    0xF2, 0x01, 0x00, 0x80, 0x55, 0xE8, 0x35, 0x6A, 0x2D, 0x9A, 0xDB, 0x74, 0x90, 0x44, 0x20, 0x10,
    0x08, 0x04, 0x06, 0x01, 0x01, 0x80, 0x51, 0x35, 0x90, 0x08, 0x06, 0x22, 0xB1, 0x01, 0x80, 0x40,
    0xA0, 0x11, 0x08, 0x05, 0x92, 0xC3, 0x74, 0xB0, 0xC2, 0x20, 0x10, 0x08, 0x04, 0xB5, 0x0C, 0x3C,
    0x58, 0x1E, 0x80]

open scoped Memory

/-- The session in which all of this stream is decoded. -/
def shortBlocksSession : Session :=
  (Session.start PendingInput.defaultFrameSize .error).run
    [.decode (some shortBlocks), .decode none, .decode none, .decode none]

theorem context_eq_lastSamples_iff_shortBlocks :
    ∃ s, shortBlocksSession.decoder.stream = some s ∧ 0 < s.info.channels ∧
      let blocks := blocksOfChannel 0 shortBlocksSession.blocks
      let n := s.info.contextLength
      ∃ h, s.round.channels[0]? = some h ∧ h.context.length = n ∧
        (∀ j < n, h.sample? (-1 - j) =
          some ((samplesOf blocks).reverse.getD j 0 - missingOffset blocks.reverse j)) ∧
        (h.context = lastSamples n (samplesOf blocks) ↔
          ∀ j < n, missingOffset blocks.reverse j = 0) ∧
        ((∀ b ∈ blocks, b.Harmless n) → h.context = lastSamples n (samplesOf blocks)) := by
  have hchannels : shortBlocksSession.decoder.stream.map (·.info.channels) = some 1 := by
    decide +kernel
  obtain ⟨s, hs, hone⟩ := Option.map_eq_some_iff.1 hchannels
  have hpos : 0 < s.info.channels := by rw [hone]; decide
  exact ⟨s, hs, hpos, context_eq_lastSamples_iff _ _ _ hs hpos⟩

/-- **A context is not always the end of what was decoded.**  The first of the three places holds
5 where 20 was decoded. -/
theorem context_ne_lastSamples :
    ¬∀ (frameSize : Nat) (failLevel : Level) (calls : List Call) (s : Stream) (c : Nat)
      (h : ChannelHistory),
      ((Session.start frameSize failLevel).run calls).decoder.stream = some s →
      s.round.channels[c]? = some h →
      h.context = lastSamples s.info.contextLength
        (samplesOf (blocksOfChannel c ((Session.start frameSize failLevel).run calls).blocks)) := by
  intro hlaw
  have hcontext : (shortBlocksSession.decoder.stream.bind fun s =>
      s.round.channels[0]?.map fun h => (h.context, s.info.contextLength)) =
        some ([5, 15, 15], 3) := by
    decide +kernel
  have hlast : lastSamples 3 (samplesOf (blocksOfChannel 0 shortBlocksSession.blocks)) =
      [20, 15, 15] := by
    decide +kernel
  obtain ⟨s, hs, hcontext⟩ := Option.bind_eq_some_iff.1 hcontext
  obtain ⟨h, hh, hcontext⟩ := Option.map_eq_some_iff.1 hcontext
  rw [Prod.mk.injEq] at hcontext
  have heq := hlaw _ _ _ s 0 h hs hh
  rw [hcontext.1, hcontext.2] at heq
  exact absurd (heq.trans hlast) (by decide)

end LosslessAudio
