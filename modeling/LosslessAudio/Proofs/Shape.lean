import LosslessAudio.Proofs.Steps

/-!
# What every stream state satisfies

The header bounds the parameters of a stream (`StreamInfo.sound_of_read`), and every command keeps
the state within these bounds (`Stream.Sound`, kept by each step in `sound_of_step`): as many
channels as the header says, with a context, a block and means of fixed lengths each.
-/

set_option autoImplicit false

namespace LosslessAudio

namespace StreamInfo

/-- The bounds on the parameters of a stream. -/
structure Sound (info : StreamInfo) : Prop where
  channels_pos : 0 < info.channels
  channels_le : info.channels ≤ maxChannels
  blockSize_pos : 0 < info.blockSize
  blockSize_le : info.blockSize ≤ maxBlockSize
  contextLength_lt : info.contextLength < sizeLimit
  meanCount : info.version ≠ 0 ∧ 0 ≤ info.meanCount.toInt ∨
    info.version = 0 ∧ info.meanCount = -1

/-- The sizes of a header are within their bounds, and so is what version 0 has instead. -/
theorem Sizes.sound_of_read {version : UInt8} {sizes : Sizes} {r r' : BitReader}
    (h : Sizes.read version r = .ok (sizes, r')) :
    (0 < sizes.blockSize ∧ sizes.blockSize ≤ maxBlockSize) ∧
      (version ≠ 0 ∧ 0 ≤ sizes.meanCount.toInt ∨ version = 0 ∧ sizes.meanCount = -1) := by
  rw [Sizes.read] at h
  split at h
  · rename_i hv
    cases h
    exact ⟨by decide, .inr ⟨hv, rfl⟩⟩
  · rename_i hv
    obtain ⟨⟨blockSize, r₁⟩, -, h⟩ := bind_eq_ok.1 h
    obtain ⟨_, hblockSize, h⟩ := bind_eq_ok.1 h
    obtain ⟨⟨maxOrder, r₂⟩, -, h⟩ := bind_eq_ok.1 h
    obtain ⟨⟨meanCount, r₃⟩, -, h⟩ := bind_eq_ok.1 h
    obtain ⟨_, hmeanCount, h⟩ := bind_eq_ok.1 h
    obtain ⟨⟨skipped, r₄⟩, -, h⟩ := bind_eq_ok.1 h
    obtain ⟨r₅, -, h⟩ := bind_eq_ok.1 h
    cases h
    refine ⟨ensure_eq_ok.1 hblockSize, .inl ⟨hv, ?_⟩⟩
    have hlt := ensure_eq_ok.1 hmeanCount
    have hlimit : sizeLimit < 2 ^ 31 := by decide
    rw [← UInt32.ofNat_toNat (x := meanCount), UInt32.toInt32_ofNat',
      Int32.toInt_ofNat_of_lt (Nat.lt_trans hlt hlimit)]
    exact Int.natCast_nonneg _

/-- **An accepted header is within its bounds.** -/
theorem sound_of_read {failLevel : Level} {info : StreamInfo} {r r' : BitReader}
    (h : (StreamInfo.read failLevel r).outcome = .ok (info, r')) : info.Sound := by
  rw [outcome_read] at h
  obtain ⟨⟨preamble, r₁⟩, hpreamble, h⟩ := bind_eq_ok.1 h
  obtain ⟨⟨waveHeader, r₂⟩, -, h⟩ := bind_eq_ok.1 h
  obtain ⟨info', hinfo, h⟩ := bind_eq_ok.1 h
  cases h
  obtain ⟨wave, -, hinfo⟩ := bind_eq_ok.1 hinfo
  have hinfo : ofParts preamble waveHeader wave = info := by
    dsimp only at hinfo
    split at hinfo
    · cases hinfo
    · cases hinfo
      rfl
  obtain ⟨⟨found, r₃⟩, -, h⟩ := bind_eq_ok.1 hpreamble
  obtain ⟨_, -, h⟩ := bind_eq_ok.1 h
  obtain ⟨⟨version, r₄⟩, -, h⟩ := bind_eq_ok.1 h
  obtain ⟨⟨typeCode, r₅⟩, -, h⟩ := bind_eq_ok.1 h
  obtain ⟨⟨channels, r₆⟩, -, h⟩ := bind_eq_ok.1 h
  obtain ⟨_, hpos, h⟩ := bind_eq_ok.1 h
  obtain ⟨_, hle, h⟩ := bind_eq_ok.1 h
  obtain ⟨⟨sizes, r₇⟩, hsizes, h⟩ := bind_eq_ok.1 h
  obtain ⟨_, hhistory, h⟩ := bind_eq_ok.1 h
  obtain ⟨⟨hblock, hblock'⟩, hmeans⟩ := Sizes.sound_of_read hsizes
  have hhistory := ensure_eq_ok.1 hhistory
  split at h
  · cases h
  · cases h
    subst hinfo
    exact ⟨Nat.pos_of_ne_zero (ensure_eq_ok.1 hpos), ensure_eq_ok.1 hle, hblock, hblock',
      Nat.lt_of_le_of_lt (Nat.le_add_left _ _) hhistory, hmeans⟩

theorem minimalContext_le (info : StreamInfo) : minimalContext ≤ info.contextLength :=
  Nat.le_max_left _ _

end StreamInfo

/-- Room for a frame of a stream can always be had. -/
theorem Memory.reserve_frame [Memory] {channels blockSize : Nat}
    (hchannels : channels ≤ StreamInfo.maxChannels)
    (hblockSize : blockSize ≤ StreamInfo.maxBlockSize) :
    reserve .frame (channels * blockSize) = .ok () :=
  if_pos (Memory.grants_frame _ (Nat.mul_le_mul hchannels hblockSize))

/-! ## Streams -/

/-- The lengths of the three parts of a history. -/
structure ChannelHistory.Sound (info : StreamInfo) (h : ChannelHistory) : Prop where
  context : h.context.length = info.contextLength
  block : h.block.length = info.blockSize
  means : h.means.length = keptMeans info.meanCount

/-- A history begins with the lengths that it keeps. -/
theorem ChannelHistory.sound_initial (info : StreamInfo) (mean : Int32) :
    (initial info.contextLength info.blockSize info.meanCount mean).Sound info :=
  ⟨List.length_replicate, List.length_replicate, List.length_replicate⟩

/-- A recorded mean takes the place of another one. -/
theorem ChannelHistory.length_meansAfter {h : ChannelHistory} {meanCount : Int32}
    (hlength : h.means.length = keptMeans meanCount) (mean : Int32) :
    (h.meansAfter meanCount mean).length = keptMeans meanCount := by
  rw [meansAfter]
  split
  · exact hlength
  · rename_i hpos
    have hpos : 0 < meanCount.toInt := by
      rw [Int32.le_iff_toInt_le] at hpos
      exact Int.not_le.1 hpos
    have hkept : keptMeans meanCount = meanCount.toInt.toNat := by
      rw [keptMeans]
      omega
    rw [hkept] at hlength ⊢
    simp only [List.length_append, List.length_drop, List.length_take, List.length_singleton]
    omega

namespace Stream

variable {s s' : Stream}

/-- The bounds on the state of a stream. -/
structure Sound (s : Stream) : Prop where
  channels : s.round.channels.length = s.info.channels
  histories : ∀ h ∈ s.round.channels, h.Sound s.info
  blockSize_pos : 0 < s.blockSize
  blockSize_le : s.blockSize ≤ s.info.blockSize
  bitshift_le : s.bitshift ≤ maxBitshift

theorem eq_of_start [Memory] {info : StreamInfo} (h : start info = .ok s) :
    s = { info, blockSize := info.blockSize, bitshift := 0
          round := .start info.channels (.initial info.contextLength info.blockSize info.meanCount
            info.sampleType.initialMean) } := by
  obtain ⟨history, hcreate, h⟩ := bind_eq_ok.1 h
  obtain ⟨_, -, hcreate⟩ := bind_eq_ok.1 hcreate
  obtain ⟨_, -, hcreate⟩ := bind_eq_ok.1 hcreate
  cases hcreate
  cases h
  rfl

theorem channels_start [Memory] {info : StreamInfo} (hinfo : info.Sound) (h : start info = .ok s) :
    s.round.channels = List.replicate info.channels (.initial info.contextLength info.blockSize
      info.meanCount info.sampleType.initialMean) := by
  rw [eq_of_start h, Round.start, Round.channels, List.nil_append, ← List.replicate_succ,
    Nat.sub_add_cancel hinfo.channels_pos]

theorem sound_start [Memory] {info : StreamInfo} (hinfo : info.Sound) (h : start info = .ok s) :
    s.Sound := by
  have hchannels := channels_start hinfo h
  have hs := eq_of_start h
  subst hs
  refine ⟨?_, ?_, hinfo.blockSize_pos, Nat.le_refl _, Nat.zero_le _⟩
  · exact Round.length_channels_start hinfo.channels_pos _
  · intro history hmem
    rw [hchannels] at hmem
    rw [List.eq_of_mem_replicate hmem]
    exact ChannelHistory.sound_initial info _

theorem Sound.historyAfter (hs : s.Sound) {b : Block} (hb : s.Takes b) :
    (s.historyAfter b).Sound s.info := by
  obtain ⟨hcontext, hblock, hmeans⟩ := hs.histories _ s.round.current_mem_channels
  refine ⟨?_, ?_, ChannelHistory.length_meansAfter hmeans _⟩
  · exact (b.length_contextAfter _).trans hcontext
  · have hle := hs.blockSize_le
    have hlength := hb.length
    show (b.shifted ++ s.round.current.block.drop b.shifted.length).length = _
    rw [List.length_append, List.length_drop, Block.length_shifted]
    omega

/-- **Every command keeps the state within its bounds.** -/
theorem sound_of_step (hs : s.Sound) {b : Option Block} {e : Command.Effect}
    (h : s.Step b e s') : s'.Sound := by
  cases h with
  | audio b hb =>
    refine ⟨?_, ?_, hs.blockSize_pos, hs.blockSize_le, hs.bitshift_le⟩
    · exact (s.round.length_channels_next _).trans hs.channels
    · intro h hmem
      rw [behind, Round.channels_next] at hmem
      rcases List.mem_append.1 hmem with hmem | hmem
      · exact hs.histories h (List.mem_append_left _ hmem)
      · rcases List.mem_cons.1 hmem with rfl | hmem
        · exact hs.historyAfter hb
        · exact hs.histories h (List.mem_append_right _ (List.mem_cons_of_mem _ hmem))
  | verbatim | quit => exact hs
  | bitshift n hle =>
    exact ⟨hs.channels, hs.histories, hs.blockSize_pos, hs.blockSize_le, hle⟩
  | blockSize n hpos hle =>
    exact ⟨hs.channels, hs.histories, hpos, Nat.le_trans hle hs.blockSize_le, hs.bitshift_le⟩

theorem Steps.sound {blocks : List Block} {frames : List Frame} (h : s.Steps blocks frames s')
    (hs : s.Sound) : s'.Sound := by
  induction h with
  | refl => exact hs
  | step _ hstep ih => exact sound_of_step ih hstep

end Stream

end LosslessAudio
