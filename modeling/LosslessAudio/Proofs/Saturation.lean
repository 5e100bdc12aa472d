import LosslessAudio.Proofs.Rounds

/-!
# Samples that do not fit

The samples of a frame have 16 bits, and those of a block have 32.  A sample that does not fit ought
to become the nearest one that does (`saturated`).  `Frame.clip` sees to this, but the dropped low
bits are given back before that, in 32 bits, and there a sample loses its high bits.

* `Block.toInt_output` — what a frame shows of a sample of a block.
* `samples_of_run` says where this is the nearest 16-bit sample and where it is not.
-/

set_option autoImplicit false

namespace LosslessAudio

/-- The whole number between -32768 and 32767 that is nearest to `n`. -/
def saturated (n : Int) : Int :=
  max (-32768) (min 32767 n)

/-- Two numbers have the same nearest one only beyond the same end. -/
theorem saturated_eq_iff (m n : Int) : saturated m = saturated n ↔
    m = n ∨ (32767 ≤ m ∧ 32767 ≤ n) ∨ (m ≤ -32768 ∧ n ≤ -32768) := by
  unfold saturated
  omega

/-- A number is what 32 bits make of it only if it fits into them. -/
theorem bmod_eq_self_iff (n : Int) : n.bmod (2 ^ 32) = n ↔ -2 ^ 31 ≤ n ∧ n < 2 ^ 31 := by
  constructor
  · intro h
    have hlow := Int.le_bmod (x := n) (m := 2 ^ 32) (by decide)
    have hhigh := Int.bmod_lt (x := n) (m := 2 ^ 32) (by decide)
    omega
  · intro ⟨hlow, hhigh⟩
    exact Int.bmod_eq_of_le (by omega) (by omega)

namespace Frame

/-- A sample of 32 bits becomes the nearest one of 16 bits. -/
theorem toInt_clip (x : Int32) : (clip x).toInt = saturated x.toInt := by
  have hlow : x < -32768 ↔ x.toInt < -32768 := Int32.lt_iff_toInt_lt
  have hhigh : 32767 < x ↔ 32767 < x.toInt := Int32.lt_iff_toInt_lt
  rw [clip, saturated]
  split
  · rename_i h
    have hlt := hlow.1 h
    have hend : (-32768 : Int16).toInt = -32768 := by decide
    omega
  · rename_i hge
    rw [hlow] at hge
    split
    · rename_i h
      have hlt := hhigh.1 h
      have hend : (32767 : Int16).toInt = 32767 := by decide
      omega
    · rename_i hle
      rw [hhigh] at hle
      rw [Int32.toInt_toInt16, Int.bmod_eq_of_le (by omega) (by omega)]
      omega

/-- The samples of a channel are those that stand at its places. -/
theorem getElem?_channel (f : Frame) (c k : Nat) :
    (f.channel c)[k]? = f.samples[c + k * max 1 f.channels]? := by
  have hpos : 0 < max 1 f.channels := by omega
  generalize hstride : max 1 f.channels = stride at *
  -- the places of the channel below the end of the frame are as many as its samples
  have hcount : k < (f.samples.length - c + stride - 1) / stride ↔
      c + k * stride < f.samples.length := by
    have hmul : (k + 1) * stride = k * stride + stride := Nat.succ_mul k stride
    rw [Nat.lt_iff_add_one_le, Nat.le_div_iff_mul_le hpos, hmul]
    omega
  rw [channel]
  simp only [hstride, List.getElem?_map, List.size_toArray]
  by_cases hk : c + k * stride < f.samples.length
  · rw [List.getElem?_range (hcount.2 hk), List.getElem?_eq_getElem hk]
    simp [hk]
  · have hnone : (List.range ((f.samples.length - c + stride - 1) / stride))[k]? = none := by
      rw [List.getElem?_eq_none_iff, List.length_range]
      have hge := mt hcount.1 hk
      omega
    rw [hnone, List.getElem?_eq_none (Nat.le_of_not_lt hk)]
    rfl

end Frame

/-- What a frame shows of a sample: the nearest one to what 32 bits leave of its value. -/
theorem Block.toInt_output {b : Block} (hshift : b.bitshift ≤ Stream.maxBitshift) {k : Nat}
    {x : Int32} (hx : b.samples[k]? = some x) : ∃ y, b.output[k]? = some y ∧
      y.toInt = saturated ((x.toInt * 2 ^ b.bitshift).bmod (2 ^ 32)) := by
  refine ⟨Frame.clip (Sample.shiftLeft x b.bitshift), ?_, ?_⟩
  · rw [output, shifted, List.getElem?_map, List.getElem?_map, hx]
    rfl
  · rw [Frame.toInt_clip, Sample.toInt_shiftLeft x (Nat.lt_succ_of_le hshift)]

/-- Blocks are only ever decoded with an accepted bitshift. -/
theorem Stream.Steps.bitshift_le {s s' : Stream} {blocks : List Block} {frames : List Frame}
    (hsteps : s.Steps blocks frames s') (hs : s.Sound) :
    ∀ b ∈ blocks, b.bitshift ≤ maxBitshift := by
  induction hsteps with
  | refl => exact nofun
  | step hsteps hstep ih =>
    intro b hb
    rcases List.mem_append.1 hb with hb | hb
    · exact ih b hb
    · cases hstep with
      | audio b' hb' =>
        obtain rfl := List.mem_singleton.1 hb
        rw [hb'.bitshift]
        exact (hsteps.sound hs).bitshift_le
      | verbatim | quit | bitshift _ _ | blockSize _ _ _ => cases hb

/-- **What becomes of samples that do not fit.**  Every sample of a frame is made of the sample in
the same place of the block that its channel got in this round.  Its value, with the dropped low
bits, is cut to 32 bits and then replaced by the nearest 16-bit number.  This is the 16-bit number
nearest to the value itself exactly if the value fits into 32 bits, or both it and what is left of
it lie beyond the same end of the 16-bit numbers. -/
theorem samples_of_run [Memory] (frameSize : Nat) (failLevel : Level) (calls : List Call) :
    let t := (Session.start frameSize failLevel).run calls
    ∀ (i : Nat) (f : Frame), t.frames[i]? = some f → ∀ c < f.channels, ∀ k < f.blockSize,
      ∃ (b : Block) (x : Int32) (y : Int16), (blocksOfChannel c t.blocks)[i]? = some b ∧
        b.bitshift ≤ 31 ∧ b.samples[k]? = some x ∧ f.samples[c + k * f.channels]? = some y ∧
        let value := x.toInt * 2 ^ b.bitshift
        let left := value.bmod (2 ^ 32)
        y.toInt = saturated left ∧
        (y.toInt = saturated value ↔ (-2 ^ 31 ≤ value ∧ value < 2 ^ 31) ∨
          (32767 ≤ left ∧ 32767 ≤ value) ∨ (left ≤ -32768 ∧ value ≤ -32768)) := by
  intro t i f hf c hc k hk
  have hreached : Reached t.decoder.stream t.blocks t.frames :=
    ((Session.intact_start frameSize failLevel).run calls).reached
  cases hstream : t.decoder.stream with
  | none =>
    rw [hstream] at hreached
    rw [hreached.2] at hf
    cases hf
  | some s =>
    obtain ⟨info, s₀, hinfo, hstart, hsteps⟩ := Session.steps_of_run hstream
    have hmade := (Stream.delivers_of_steps hinfo hstart hsteps).made i f hf
    have hchannels := hmade.channels
    rw [hchannels] at hc
    obtain ⟨b, hb, hle, hchannel⟩ := hmade.channel c hc
    have hmem : b ∈ t.blocks := (List.mem_filter.1 (List.mem_of_getElem? hb)).1
    have hshift := hsteps.bitshift_le (Stream.sound_start hinfo hstart) b hmem
    have hx := List.getElem?_eq_getElem (Nat.lt_of_lt_of_le hk hle)
    obtain ⟨y, hy, hvalue⟩ := Block.toInt_output hshift hx
    refine ⟨b, _, y, hb, hshift, hx, ?_, hvalue, ?_⟩
    · have hstride : max 1 f.channels = f.channels := by omega
      have hplace := f.getElem?_channel c k
      rw [hstride, hchannel, List.getElem?_take_of_lt hk, hy] at hplace
      exact hplace.symm
    · rw [hvalue, saturated_eq_iff, bmod_eq_self_iff]

/-- A mono stream of one block with a bitshift of 16, its samples being 65536 and -40000. -/
def loudBlock : Bytes :=
  [0x61, 0x6A, 0x6B, 0x67, 0x02, 0x4A, 0xC6, 0xAD, 0x26, 0xC5, 0x59, 0x52, 0xA4, 0xD1, 0xA8, 0xD2,
    0x48, 0x04, 0x02, 0x01, 0x57, 0xA0, 0xD5, 0xA8, 0xB6, 0x6B, 0x6D, 0xD2, 0x41, 0x10, 0x80, 0x40,
    0x20, 0x10, 0x18, 0x04, 0x06, 0x01, 0x44, 0xD6, 0x40, 0x20, 0x18, 0x8A, 0xC4, 0x06, 0x01, 0x02,
    0x80, 0x44, 0x20, 0x16, 0x4B, 0x0D, 0xD2, 0xC3, 0x00, 0x80, 0x40, 0x20, 0x0C, 0x12, 0x10, 0x80,
    0x00, 0x33, 0x87, 0xF4]

open scoped Memory

/-- The session in which this stream is decoded. -/
def loudBlockSession : Session :=
  (Session.start PendingInput.defaultFrameSize .error).run
    [.decode (some loudBlock), .decode none, .decode none]

theorem samples_of_run_loudBlock :
    ∃ f, loudBlockSession.frames[0]? = some f ∧ 0 < f.channels ∧ 1 < f.blockSize ∧
      ∃ (b : Block) (x : Int32) (y : Int16),
        (blocksOfChannel 0 loudBlockSession.blocks)[0]? = some b ∧ b.bitshift ≤ 31 ∧
        b.samples[1]? = some x ∧ f.samples[0 + 1 * f.channels]? = some y ∧
        let value := x.toInt * 2 ^ b.bitshift
        let left := value.bmod (2 ^ 32)
        y.toInt = saturated left ∧
        (y.toInt = saturated value ↔ (-2 ^ 31 ≤ value ∧ value < 2 ^ 31) ∨
          (32767 ≤ left ∧ 32767 ≤ value) ∨ (left ≤ -32768 ∧ value ≤ -32768)) := by
  have hframe : loudBlockSession.frames[0]? = some ⟨1, 2, [0, 32767]⟩ := by decide +kernel
  have hchannels : 0 < 1 := by decide
  have hsize : 1 < 2 := by decide
  exact ⟨_, hframe, hchannels, hsize, samples_of_run _ _ _ 0 _ hframe 0 hchannels 1 hsize⟩

/-- **Samples wrap around before they are brought into range**: 2 ^ 32 becomes 0, and a sample far
below all 16-bit numbers becomes the greatest of them. -/
theorem samples_wrap : ¬ ∀ (frameSize : Nat) (failLevel : Level) (calls : List Call) (i c k : Nat)
    (f : Frame) (b : Block) (x : Int32) (y : Int16),
    ((Session.start frameSize failLevel).run calls).frames[i]? = some f → c < f.channels →
    k < f.blockSize →
    (blocksOfChannel c ((Session.start frameSize failLevel).run calls).blocks)[i]? = some b →
    b.samples[k]? = some x → f.samples[c + k * f.channels]? = some y →
    y.toInt = saturated (x.toInt * 2 ^ b.bitshift) := by
  intro hlaw
  have hframe : loudBlockSession.frames[0]? = some ⟨1, 2, [0, 32767]⟩ := by decide +kernel
  have hdecoded : (blocksOfChannel 0 loudBlockSession.blocks)[0]?.map (·.samples) =
      some ([65536, -40000] : List Int32) := by
    decide +kernel
  have hshifted : (blocksOfChannel 0 loudBlockSession.blocks)[0]?.map (·.bitshift) = some 16 := by
    decide +kernel
  obtain ⟨b, hb, hsamples⟩ := Option.map_eq_some_iff.1 hdecoded
  rw [hb, Option.map_some, Option.some.injEq] at hshifted
  have hvalue := hlaw _ _ _ 0 0 1 _ b (-40000) 32767 hframe (by decide) (by decide) hb
    (by rw [hsamples]; rfl) rfl
  rw [hshifted] at hvalue
  exact absurd hvalue (by decide)

end LosslessAudio
