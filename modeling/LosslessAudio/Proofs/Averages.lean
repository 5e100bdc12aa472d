import Mathlib.Algebra.Ring.Int.Defs
import LosslessAudio.Proofs.Context
import LosslessAudio.Proofs.Lossless
import LosslessAudio.Proofs.Suspension

/-!
# What the means of a channel are

The decoder keeps some means of earlier blocks for each channel and takes the offset of the next
block from them.  Here both are put in whole numbers: `Block.mean` is what a block adds to the means
of its channel, and `StreamInfo.offsetAfter` the offset that comes of some means.  Only their sums
and what is recorded are cut to 32 bits.

* `averages_of_steps` — the means of a channel are those of its last blocks, whatever commands a
  stream went through, and every block was decoded with the offset that comes of the means before.
* `run?_holdsMeans` — this holds of the rows of a machine, whatever is done with it, and a command
  that has to wait changes nothing of it.
-/

set_option autoImplicit false

namespace LosslessAudio

/-! ## Averages -/

/-- The average of `n` numbers, cut off towards zero.  The sum is cut to 32 bits, and from version 2
on half of `n` is added to it. -/
def average (version : UInt8) (n : Int) (xs : List Int32) : Int :=
  let bias := if version < 2 then 0 else n / 2
  (Int32.ofInt (bias + (xs.map (·.toInt)).sum)).toInt.tdiv n

/-- What is recorded of a block. -/
def Block.mean (b : Block) (version : UInt8) : Int32 :=
  let mean := average version b.samples.length b.samples
  Int32.ofInt (if version < 2 then mean else mean * 2 ^ b.bitshift)

namespace StreamInfo

variable (info : StreamInfo)

/-- The means that are kept behind some blocks of a channel, with zeros before the first one. -/
def latestMeans (blocks : List Block) : List Int32 :=
  lastSamples info.meanCount.toInt.toNat (blocks.map (·.mean info.version))

/-- The offset of the next block, given the means that are kept. -/
def offsetAfter (bitshift : Nat) (means : List Int32) : Int32 :=
  if info.meanCount.toInt ≤ 0 then 0
  else
    let mean := average info.version info.meanCount.toInt means
    Int32.ofInt (if info.version < 2 then mean else mean / 2 ^ min 1 bitshift)

end StreamInfo

/-! ### 32 bits -/

/-- A sum that wraps around is the sum of whole numbers, cut to 32 bits. -/
theorem foldl_add_eq_ofInt (xs : List Int32) (start : Int) :
    xs.foldl (· + ·) (Int32.ofInt start) = Int32.ofInt (start + (xs.map (·.toInt)).sum) := by
  induction xs generalizing start with
  | nil => simp
  | cons x xs ih =>
    have hstep : Int32.ofInt start + x = Int32.ofInt (start + x.toInt) := by
      rw [Int32.ofInt_add, Int32.ofInt_toInt]
    rw [List.foldl_cons, hstep, ih, List.map_cons, List.sum_cons, Int.add_assoc]

/-- A quotient by a positive number does not wrap around. -/
theorem toInt_div_of_pos {d : Int32} (hd : 0 < d.toInt) (x : Int32) :
    (x / d).toInt = x.toInt.tdiv d.toInt := by
  have hlow := x.le_toInt
  have hhigh := x.toInt_lt
  have habs := Int.natAbs_tdiv_le_natAbs x.toInt d.toInt
  have hmin : x.toInt = -2 ^ 31 → x.toInt.tdiv d.toInt ≤ 0 := by
    intro hx
    rw [hx, Int.neg_tdiv]
    have := Int.tdiv_nonneg (a := 2 ^ 31) (by decide) (Int.le_of_lt hd)
    omega
  rw [Int32.toInt_div]
  exact Int.bmod_eq_of_le (by omega) (by omega)

theorem Sample.shiftLeft_eq_ofInt (x : Int32) {n : Nat} (hn : n < 32) :
    Sample.shiftLeft x n = Int32.ofInt (x.toInt * 2 ^ n) := by
  apply Int32.toInt_inj.1
  rw [toInt_shiftLeft x hn, Int32.toInt_ofInt]
  rfl

theorem Sample.shiftRight_eq_ofInt (x : Int32) {n : Nat} (hn : n < 32) :
    Sample.shiftRight x n = Int32.ofInt (x.toInt / 2 ^ n) := by
  apply Int32.toInt_inj.1
  rw [← toInt_shiftRight x hn, Int32.ofInt_toInt]

/-- The quotient that is taken of a sum is the average. -/
theorem toInt_foldl_div {d : Int32} (hd : 0 < d.toInt) (version : UInt8) (bias : Int32)
    (hbias : bias.toInt = if version < 2 then 0 else d.toInt / 2) (xs : List Int32) :
    (xs.foldl (· + ·) bias / d).toInt = average version d.toInt xs := by
  rw [toInt_div_of_pos hd, average, ← hbias, ← foldl_add_eq_ofInt, Int32.ofInt_toInt]

namespace ChannelHistory

/-- **The mean that is recorded of a block.** -/
theorem meanOf_eq_mean (b : Block) (version : UInt8) (hpos : 0 < b.samples.length)
    (hle : b.samples.length ≤ StreamInfo.maxBlockSize) (hbitshift : b.bitshift < 32) :
    meanOf b.samples version b.bitshift = b.mean version := by
  have hmax : StreamInfo.maxBlockSize = 65535 := rfl
  have hlength : (Int32.ofNat b.samples.length).toInt = b.samples.length :=
    Int32.toInt_ofNat_of_lt (by omega)
  have hhalf : (Int32.ofNat (b.samples.length / 2)).toInt = (b.samples.length : Int) / 2 :=
    Int32.toInt_ofNat_of_lt (by omega)
  have hd : 0 < (Int32.ofNat b.samples.length).toInt := by omega
  rw [meanOf, Block.mean]
  split
  · rename_i hv
    have hmean := toInt_foldl_div hd version 0 (by rw [if_pos hv]; rfl) b.samples
    rw [hlength] at hmean
    rw [← hmean, Int32.ofInt_toInt]
  · rename_i hv
    have hmean := toInt_foldl_div hd version (Int32.ofNat (b.samples.length / 2))
      (by rw [if_neg hv, hhalf, hlength]) b.samples
    rw [hlength] at hmean
    rw [Sample.shiftLeft_eq_ofInt _ hbitshift, hmean]

variable {info : StreamInfo} {h : ChannelHistory}

/-- **The offset that comes of the means.** -/
theorem offset_eq_offsetAfter (hinfo : info.Sound)
    (hused : 0 < info.meanCount.toInt → h.means.length = info.meanCount.toInt.toNat)
    (hunused : info.meanCount.toInt ≤ 0 → h.means = [0]) (bitshift : Nat) :
    h.offset info.version info.meanCount bitshift = info.offsetAfter bitshift h.means := by
  rw [offset, StreamInfo.offsetAfter]
  by_cases hle : info.meanCount.toInt ≤ 0
  · rw [if_pos hle, hunused hle]
    rcases hinfo.meanCount with ⟨-, hnonneg⟩ | ⟨hversion, hminus⟩
    · have hzero : info.meanCount.toInt = (0 : Int32).toInt := Int.le_antisymm hle hnonneg
      rw [if_pos (Int32.toInt_inj.1 hzero)]
      rfl
    · rw [hversion, hminus]
      rfl
  · have hpos : 0 < info.meanCount.toInt := Int.not_le.1 hle
    have hzero : info.meanCount ≠ 0 := fun h => hle (by rw [h]; decide)
    have htwo : (info.meanCount / 2).toInt = info.meanCount.toInt / 2 := by
      rw [toInt_div_of_pos (by decide), Int.tdiv_eq_ediv_of_nonneg (Int.le_of_lt hpos)]
      rfl
    rw [if_neg hzero, if_neg hle, List.take_of_length_le (Nat.le_of_eq (hused hpos))]
    dsimp only
    by_cases hv : info.version < 2
    · have hmean := toInt_foldl_div hpos info.version 0 (by rw [if_pos hv]; rfl) h.means
      rw [if_pos hv, if_pos hv, if_pos hv, ← hmean, Int32.ofInt_toInt]
    · have hmean := toInt_foldl_div hpos info.version (info.meanCount / 2)
        (by rw [if_neg hv, htwo]) h.means
      rw [if_neg hv, if_neg hv, if_neg hv, Sample.shiftRight_eq_ofInt _ (by omega), hmean]

end ChannelHistory

/-! ## Any number of blocks -/

/-- What is kept, seen from the last block on. -/
theorem latest_reverse (n : Nat) (xs : List Int32) : latest n xs.reverse = lastSamples n xs := by
  rw [latest, ← reverse_lastSamples, List.reverse_reverse]

theorem recordedMeans_of_pos {info : StreamInfo} (hpos : 0 < info.meanCount.toInt)
    (blocks : List Block) :
    recordedMeans info.meanCount (blocks.map (·.mean info.version)).reverse =
      info.latestMeans blocks := by
  have hnot : ¬info.meanCount ≤ 0 := by
    rw [Int32.le_iff_toInt_le]
    exact Int.not_le.2 hpos
  rw [recordedMeans, if_neg hnot, latest_reverse]
  rfl

theorem recordedMeans_of_nonpos {meanCount : Int32} (hle : meanCount.toInt ≤ 0)
    (means : List Int32) : recordedMeans meanCount means = [0] := by
  have hnonpos : meanCount ≤ 0 := Int32.le_iff_toInt_le.2 hle
  rw [recordedMeans, if_pos hnonpos]

/-- The means of every channel are those of its last blocks, and its blocks had the offsets that
came of the means before. -/
structure Stream.Averages (s : Stream) (blocks : List Block) : Prop where
  means : ∀ (c : Nat) (h : ChannelHistory), s.round.channels[c]? = some h →
    h.means = recordedMeans s.info.meanCount
      ((blocksOfChannel c blocks).map (·.mean s.info.version)).reverse
  offsets : ∀ (c i : Nat) (b : Block), (blocksOfChannel c blocks)[i]? = some b →
    b.offset = s.info.offsetAfter b.bitshift
      (s.info.latestMeans ((blocksOfChannel c blocks).take i))

namespace Stream

variable {s s' : Stream} {blocks : List Block}

theorem Averages.offset_eq (hs : s.Averages blocks) (hinfo : s.info.Sound) {c : Nat}
    {h : ChannelHistory} (hc : s.round.channels[c]? = some h) (bitshift : Nat) :
    h.offset s.info.version s.info.meanCount bitshift =
      s.info.offsetAfter bitshift (s.info.latestMeans (blocksOfChannel c blocks)) := by
  have hmeans := hs.means c h hc
  by_cases hpos : 0 < s.info.meanCount.toInt
  · rw [recordedMeans_of_pos hpos] at hmeans
    rw [← hmeans]
    refine ChannelHistory.offset_eq_offsetAfter hinfo (fun _ => ?_) (fun hle => ?_) bitshift
    · rw [hmeans, StreamInfo.latestMeans, length_lastSamples]
    · omega
  · have hle : s.info.meanCount.toInt ≤ 0 := Int.not_lt.1 hpos
    rw [recordedMeans_of_nonpos hle] at hmeans
    rw [ChannelHistory.offset_eq_offsetAfter hinfo (fun h => absurd h hpos) (fun _ => hmeans),
      StreamInfo.offsetAfter, StreamInfo.offsetAfter, if_pos hle, if_pos hle]

theorem averages_start [Memory] {info : StreamInfo} (hinfo : info.Sound)
    (hstart : start info = .ok s) :
    s.Averages [] where
  means c h hc := by
    have hchannels := channels_start hinfo hstart
    obtain rfl := eq_of_start hstart
    rw [hchannels] at hc
    obtain rfl := List.eq_of_mem_replicate (List.mem_of_getElem? hc)
    have hzero : info.sampleType.initialMean = 0 := by cases info.sampleType <;> rfl
    rw [ChannelHistory.initial, hzero]
    exact (recordedMeans_nil info.meanCount).symm
  offsets c i b hb := by
    simp [blocksOfChannel] at hb

/-- A block adds its mean to those of its channel, and was decoded with the offset before. -/
theorem averages_behind (hs : s.Averages blocks) (hsound : s.Sound) (hinfo : s.info.Sound)
    {b : Block} (hb : s.Takes b) : (s.behind b).Averages (blocks ++ [b]) where
  means c h hc := by
    have hmean : ChannelHistory.meanOf b.samples s.info.version s.bitshift =
        b.mean s.info.version := by
      rw [← hb.bitshift]
      refine ChannelHistory.meanOf_eq_mean b _ ?_ ?_ ?_
      · rw [hb.length]
        exact hsound.blockSize_pos
      · rw [hb.length]
        exact Nat.le_trans hsound.blockSize_le hinfo.blockSize_le
      · rw [hb.bitshift]
        exact Nat.lt_succ_of_le hsound.bitshift_le
    rw [behind, Round.getElem?_channels_next] at hc
    rw [blocksOfChannel_append_singleton, hb.channel]
    by_cases hturn : c = s.round.index
    · rw [if_pos hturn] at hc
      cases hc
      have hcurrent := hs.means c s.round.current (hturn ▸ s.round.getElem?_channels_index)
      rw [if_pos hturn.symm, List.map_append, List.reverse_append]
      show s.round.current.meansAfter s.info.meanCount
        (ChannelHistory.meanOf b.samples s.info.version s.bitshift) = _
      rw [hmean]
      exact meansAfter_eq hcurrent (b.mean s.info.version)
    · rw [if_neg hturn] at hc
      rw [if_neg (Ne.symm hturn)]
      exact hs.means c h hc
  offsets c i b' hb' := by
    show b'.offset = s.info.offsetAfter b'.bitshift
      (s.info.latestMeans ((blocksOfChannel c (blocks ++ [b])).take i))
    rw [blocksOfChannel_append_singleton, hb.channel] at hb' ⊢
    by_cases hturn : s.round.index = c
    · rw [if_pos hturn] at hb' ⊢
      rcases Nat.lt_or_ge i (blocksOfChannel c blocks).length with hi | hi
      · rw [List.getElem?_append_left hi] at hb'
        rw [List.take_append_of_le_length (Nat.le_of_lt hi)]
        exact hs.offsets c i b' hb'
      · rw [List.getElem?_append_right hi, List.getElem?_singleton] at hb'
        split at hb'
        · -- this is the block that was just decoded
          cases hb'
          have hlast : i = (blocksOfChannel c blocks).length := by omega
          rw [hlast, List.take_left, hb.offset, hb.bitshift]
          exact hs.offset_eq hinfo (hturn ▸ s.round.getElem?_channels_index) s.bitshift
        · cases hb'
    · rw [if_neg hturn] at hb' ⊢
      exact hs.offsets c i b' hb'

theorem averages_of_step (hs : s.Averages blocks) (hsound : s.Sound) (hinfo : s.info.Sound)
    {b : Option Block} {e : Command.Effect} (hstep : s.Step b e s') :
    s'.Averages (blocks ++ b.toList) := by
  cases hstep with
  | audio b hb => exact averages_behind hs hsound hinfo hb
  | verbatim | bitshift | blockSize | quit =>
    rw [Option.toList_none, List.append_nil]
    exact ⟨hs.means, hs.offsets⟩

/-- **What the means are**, behind any number of commands. -/
theorem averages_of_steps [Memory] {info : StreamInfo} (hinfo : info.Sound) {s₀ : Stream}
    (hstart : start info = .ok s₀) {frames : List Frame} (hsteps : s₀.Steps blocks frames s) :
    s.Averages blocks := by
  have hbounds : s.Averages blocks ∧ s.info.Sound := by
    induction hsteps with
    | refl =>
      refine ⟨averages_start hinfo hstart, ?_⟩
      obtain rfl := eq_of_start hstart
      exact hinfo
    | step hsteps hstep ih =>
      have hsound := hsteps.sound (sound_start hinfo hstart)
      refine ⟨averages_of_step ih.1 hsound ih.2 hstep, ?_⟩
      rw [Routine.info_of_step hstep]
      exact ih.2
  exact hbounds.1

end Stream

/-! ## The rows of a machine -/

/-- A row that keeps the means of the blocks of its channel, which are `blocks`. -/
structure Row.HoldsMeans (row : Row) (info : StreamInfo) (blocks : List Block) : Prop where
  /-- The means are those of the last blocks, the oldest one first. -/
  means : 0 < info.meanCount.toInt → row.means = info.latestMeans blocks
  /-- Where no means are kept, the row is as it was set up. -/
  unused : info.meanCount.toInt ≤ 0 → row.means = [0]
  /-- The offset that an audio command takes from the row, whatever the bitshift is by then. -/
  offset : ∀ bitshift, row.offset? info.version info.meanCount bitshift =
    some (info.offsetAfter bitshift (info.latestMeans blocks))
  offset_eq_zero : info.version = 0 ∨ info.meanCount = 0 →
    ∀ bitshift, row.offset? info.version info.meanCount bitshift = some 0
  /-- The offsets that earlier commands took. -/
  offsets : ∀ (i : Nat) (b : Block), blocks[i]? = some b →
    b.offset = info.offsetAfter b.bitshift (info.latestMeans (blocks.take i))

/-- The registers agree in all that offsets are computed from. -/
structure Registers.SameMeans (s s' : Registers) : Prop where
  means : s'.rows.map Row.means = s.rows.map Row.means
  version : s'.version = s.version
  meanCount : s'.meanCount = s.meanCount
  bitshift : s'.bitshift = s.bitshift

/-- A block that will be overwritten has no part in it. -/
theorem Registers.sameMeans_replaceBlock (s : Registers) (block : List Int32) :
    s.SameMeans (s.replaceBlock block) where
  means := by
    refine List.ext_getElem? fun c => ?_
    rw [List.getElem?_map, List.getElem?_map, replaceBlock, List.getElem?_modify]
    cases s.rows[c]? with
    | none => rfl
    | some row =>
      by_cases hc : s.currentChannel = c <;> simp [hc, Row.replaceBlock]
  version := rfl
  meanCount := rfl
  bitshift := rfl

theorem Round.map_means_blank (round : Round) (n : Nat) :
    (round.blank n).channels.map ChannelHistory.means =
      round.channels.map ChannelHistory.means := by
  have hmeans (k : Nat) : ChannelHistory.means ∘ ChannelHistory.blank k = ChannelHistory.means :=
    rfl
  simp [Round.blank, Round.channels, hmeans]
  rfl

namespace Machine

variable {m : Machine} {d : Decoder}

theorem info_eq (h : m.Represents d) : m.registers.info = d.stream.map (·.info) := by
  obtain ⟨held, hheld, hregisters⟩ := h.registers
  have hinfo := congrArg (Option.map Stream.info) hheld.blank
  rw [Option.map_map, Option.map_map] at hinfo
  rw [hregisters]
  cases held with
  | none => exact hinfo
  | some t => exact hinfo

/-- The row of a channel has the means of its history.  Their blocks may differ where a command has
to be decoded again. -/
theorem Represents.exists_row (h : m.Represents d) {s : Stream} (hs : d.stream = some s) {c : Nat}
    (hc : c < s.info.channels) :
    s.info.Sound ∧ ∃ history g, m.registers.rows[c]? = some (ChannelHistory.row history) ∧
      s.round.channels[c]? = some g ∧ g.means = history.means ∧
      history.means.length = ChannelHistory.keptMeans s.info.meanCount := by
  obtain ⟨held, hheld, hregisters⟩ := h.registers
  have hblank : held.map Stream.blank = some s.blank := by rw [hheld.blank, hs, Option.map_some]
  obtain ⟨t, rfl, ht⟩ := Option.map_eq_some_iff.1 hblank
  have hbounded := hheld.bounded t rfl
  have hinfo : t.info = s.info := congrArg (fun u => u.info) ht
  have hmeans : t.round.channels.map ChannelHistory.means =
      s.round.channels.map ChannelHistory.means := by
    have hround := congrArg (fun u => u.round.channels.map ChannelHistory.means) ht
    rw [← Round.map_means_blank t.round t.blockSize, ← Round.map_means_blank s.round s.blockSize]
    exact hround
  have hin : c < t.round.channels.length := by
    rw [hbounded.channels, hinfo]
    exact hc
  obtain ⟨history, hhistory⟩ : ∃ history, t.round.channels[c]? = some history :=
    ⟨_, List.getElem?_eq_getElem hin⟩
  obtain ⟨g, hg, hsame⟩ : ∃ g, s.round.channels[c]? = some g ∧ g.means = history.means := by
    have hplace := congrArg (·[c]?) hmeans
    simp only [List.getElem?_map, hhistory, Option.map_some] at hplace
    exact Option.map_eq_some_iff.1 hplace.symm
  have hlength := (hbounded.histories history (List.mem_of_getElem? hhistory)).means
  rw [hinfo] at hlength
  refine ⟨hinfo ▸ hbounded.info, history, g, ?_, hg, hsame, hlength⟩
  rw [hregisters]
  show (t.round.channels.map ChannelHistory.row)[c]? = _
  rw [List.getElem?_map, hhistory, Option.map_some]

/-- A machine keeps the means that its decoder keeps. -/
theorem Represents.holdsMeans (h : m.Represents d) {s : Stream} {blocks : List Block}
    (hs : d.stream = some s) (haverages : s.Averages blocks) {c : Nat}
    (hc : c < s.info.channels) :
    ∃ row, m.registers.rows[c]? = some row ∧
      row.HoldsMeans s.info (blocksOfChannel c blocks) := by
  obtain ⟨hsound, history, g, hrow, hg, hsame, hlength⟩ := h.exists_row hs hc
  have hkept := haverages.means c g hg
  -- the offset depends on the means only
  have hoffset (bitshift : Nat) : history.row.offset? s.info.version s.info.meanCount bitshift =
      some (s.info.offsetAfter bitshift (s.info.latestMeans (blocksOfChannel c blocks))) := by
    rw [ChannelHistory.offset?_row hlength, ← haverages.offset_eq hsound hg, ChannelHistory.offset,
      ChannelHistory.offset, hsame]
  refine ⟨history.row, hrow, ?_, ?_, hoffset, ?_, haverages.offsets c⟩
  · intro hpos
    rw [ChannelHistory.means_row, ← hsame, hkept, recordedMeans_of_pos hpos]
  · intro hle
    rw [ChannelHistory.means_row, ← hsame, hkept, recordedMeans_of_nonpos hle]
  · intro hzero bitshift
    have hle : s.info.meanCount.toInt ≤ 0 := by
      rcases hzero with hversion | hzero
      · rcases hsound.meanCount with ⟨hne, -⟩ | ⟨-, hminus⟩
        · exact absurd hversion hne
        · rw [hminus]
          decide
      · rw [hzero]
        decide
    rw [hoffset, StreamInfo.offsetAfter, if_pos hle]

/-- **The means of a channel and its offsets.**  Whatever is done with a machine, the row of every
channel keeps the means of the last blocks that were decoded for it, with zeros before the first
one; the next audio command takes the offset that comes of them, and every earlier one took the
offset that came of the means before it.  A call that asks for more input, because a command or the
header is not complete, leaves the means and the offsets as the complete commands leave them. -/
theorem run?_holdsMeans [Memory] (frameSize : Nat) (failLevel : Level) (turns : List Turn) :
    ∃ m, (start frameSize failLevel).run? turns = some m ∧
      (∀ info, m.registers.info = some info → ∀ c < info.channels,
        ∃ row, m.registers.rows[c]? = some row ∧ row.HoldsMeans info (blocksOfChannel c
          ((Session.start frameSize failLevel).run (turns.map Turn.call)).blocks)) ∧
      ∀ capacity bytes consumed m',
        m.decode? capacity (some bytes) = some (.ok ⟨consumed, .needMoreInput⟩, m') →
          ∃ w s, m.window.append? capacity bytes = some (.ok (consumed, w)) ∧
            (s = m.registers ∨
              ∃ r r', w.reader? = some r ∧ Routine.Completes m.registers r s r' ∧
                Routine.Overreads s r') ∧
            s.SameMeans m'.registers := by
  obtain ⟨m, hrun, hm⟩ := Represents.run (t := Session.start frameSize failLevel)
    (represents_start frameSize failLevel) turns
  refine ⟨m, hrun, fun info hinfo c hc => ?_, fun capacity bytes consumed m' hdecode => ?_⟩
  · rw [info_eq hm] at hinfo
    obtain ⟨s, hs, rfl⟩ := Option.map_eq_some_iff.1 hinfo
    obtain ⟨info₀, s₀, hinfo₀, hstart, hsteps⟩ := Session.steps_of_run hs
    exact hm.holdsMeans hs (Stream.averages_of_steps hinfo₀ hstart hsteps) hc
  · obtain ⟨w, happend, hwaits⟩ := hm.waits hdecode
    cases hwaits with
    | unfilled hlt heq =>
      exact ⟨w, m.registers, happend, .inl rfl, by rw [heq]; exact ⟨rfl, rfl, rfl, rfl⟩⟩
    | header hle hparsed hr hread hover heq hr' =>
      exact ⟨w, m.registers, happend, .inl rfl, by rw [heq]; exact ⟨rfl, rfl, rfl, rfl⟩⟩
    | command hle hparsed hr hcompletes hover heq hr' =>
      refine ⟨w, _, happend, .inr ⟨_, _, hr, hcompletes, hover⟩, ?_⟩
      rw [heq]
      exact Registers.sameMeans_replaceBlock _ _

/-- A mono stream of three blocks of three samples, of which two means are kept.  The second block,
before which the bitshift becomes 1, takes 76 bytes. -/
def runningMeans : Bytes :=
  [0x61, 0x6A, 0x6B, 0x67, 0x02, 0xFB, 0x1D, 0xE6, 0xA9, 0x2A, 0xCA, 0x95, 0x26, 0x8D, 0x46, 0x92,
    0x40, 0x20, 0x10, 0x0A, 0xBD, 0x06, 0xAD, 0x45, 0xB3, 0x5B, 0x6E, 0x92, 0x08, 0x84, 0x02, 0x01,
    0x00, 0x80, 0xC0, 0x20, 0x30, 0x0A, 0x26, 0xB2, 0x01, 0x00, 0xC4, 0x56, 0x20, 0x30, 0x08, 0x14,
    0x02, 0x21, 0x00, 0xB2, 0x58, 0x6E, 0x96, 0x18, 0x04, 0x02, 0x01, 0x00, 0x94, 0xA5, 0x92, 0xD6,
    0x40] ++ List.replicate 74 0 ++ [0x02, 0x00, 0x8E, 0x55, 0x4C, 0x20]

/-- Two calls decode the header and the first block, the third one has to wait in the second block,
and the others decode the rest. -/
def runningMeansTurns : List Turn :=
  [0, 64, 124, 126].map (fun n => ⟨.decode (some (runningMeans.drop n)), 0⟩) ++
    List.replicate 3 ⟨.decode none, 0⟩

open scoped Memory

theorem run?_holdsMeans_runningMeans :
    ∃ m info row m', (start 64 .warn).run? (runningMeansTurns.take 2) = some m ∧
      m.registers.info = some info ∧ 0 < info.channels ∧
      m.registers.rows[0]? = some row ∧ row.HoldsMeans info (blocksOfChannel 0
        ((Session.start 64 .warn).run ((runningMeansTurns.take 2).map Turn.call)).blocks) ∧
      m.decode? 0 (some (runningMeans.drop 124)) = some (.ok ⟨2, .needMoreInput⟩, m') ∧
      ∃ w s, m.window.append? 0 (runningMeans.drop 124) = some (.ok (2, w)) ∧
        (s = m.registers ∨
          ∃ r r', w.reader? = some r ∧ Routine.Completes m.registers r s r' ∧
            Routine.Overreads s r') ∧
        s.SameMeans m'.registers := by
  obtain ⟨m, hrun, hmeans, hwaits⟩ := run?_holdsMeans 64 .warn (runningMeansTurns.take 2)
  have hinfo : ((start 64 .warn).run? (runningMeansTurns.take 2)).bind
      (fun m => m.registers.info.map (·.channels)) = some 1 := by decide +kernel
  have hanswer : ((start 64 .warn).run? (runningMeansTurns.take 2)).bind (fun m =>
      (m.decode? 0 (some (runningMeans.drop 124))).map (·.1.toOption)) =
        some (some ⟨2, .needMoreInput⟩) := by decide +kernel
  rw [hrun, Option.bind_some] at hinfo hanswer
  obtain ⟨info, hinfo, hone⟩ := Option.map_eq_some_iff.1 hinfo
  have hchannel : 0 < info.channels := by rw [hone]; decide
  obtain ⟨row, hrow, hholds⟩ := hmeans info hinfo 0 hchannel
  obtain ⟨⟨answer, m'⟩, hdecode, hok⟩ := Option.map_eq_some_iff.1 hanswer
  cases answer with
  | error fault => cases hok
  | ok out =>
    cases hok
    exact ⟨m, info, row, m', hrun, hinfo, hchannel, hrow, hholds, hdecode, hwaits _ _ _ _ hdecode⟩

/-- The means behind each call. -/
example : (List.range 8).map (fun n =>
      ((start 64 .warn).run? (runningMeansTurns.take n)).map (·.registers.rows.map Row.means)) =
    [[], [[0, 0]], [[0, -3]], [[0, -3]], [[0, -3]], [[-3, 402]], [[402, 200]], [[402, 200]]].map
      some := by
  decide +kernel

end Machine

end LosslessAudio
