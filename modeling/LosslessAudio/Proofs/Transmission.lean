import LosslessAudio.Proofs.Codewords
import LosslessAudio.Proofs.Header

/-!
# What the bits of a header transmit

The numbers in a header are Rice codes, so the bits transmit natural numbers of any size, and so do
the parameters in front of them.  `Transmission` holds what they transmit, before anything is
reduced to 32 bits.

`transmission_of_read` says that an accepted header transmits exactly one such thing, and that what
is reported is what is left of its numbers in 32 bits.  All ranges are checked after that.  So the
header transmits what is reported, and has its numbers in range, if and only if none of them is too
wide; `accepted_too_wide` is a header with too many channels that is accepted.
-/

set_option autoImplicit false

namespace LosslessAudio

/-- A number as the bits of a header transmit it. -/
structure TransmittedNumber where
  /-- The Rice parameter that comes with it; in version 0 there is none. -/
  parameter : Option Nat
  value : Nat
  deriving DecidableEq, Repr

namespace TransmittedNumber

/-- The bits of a number; `hint` is the parameter where none is transmitted. -/
def code (hint : Nat) (n : TransmittedNumber) : List Bool :=
  match n.parameter with
  | none => Code.rice hint n.value
  | some k => Code.rice Rice.adaptiveParameter k ++ Code.rice (k % 2 ^ 32) n.value

theorem code_append_inj {hint : Nat} {m n : TransmittedNumber} {w w' : List Bool}
    (hmn : m.parameter.isSome = n.parameter.isSome) (h : m.code hint ++ w = n.code hint ++ w') :
    m = n ∧ w = w' := by
  obtain ⟨j | j, x⟩ := m <;> obtain ⟨k | k, y⟩ := n
  · obtain ⟨rfl, hw⟩ := Code.rice_append_inj h
    exact ⟨rfl, hw⟩
  · cases hmn
  · cases hmn
  · simp only [code, List.append_assoc] at h
    obtain ⟨rfl, hvalue⟩ := Code.rice_append_inj h
    obtain ⟨rfl, hw⟩ := Code.rice_append_inj hvalue
    exact ⟨rfl, hw⟩

/-- Wherever an adaptive number was read, one was transmitted. -/
theorem of_adaptive {r r' : BitReader} {version : UInt8} {hint : Nat} {u : UInt32}
    (h : r.adaptive version hint = .ok (u, r')) :
    ∃ n : TransmittedNumber, n.parameter.isSome = decide (version ≠ 0) ∧
      u = UInt32.ofNat n.value ∧ r.rest = n.code hint ++ r'.rest := by
  rw [BitReader.adaptive] at h
  split at h
  · rename_i hv
    obtain ⟨n, rfl, hrest⟩ := BitReader.rest_of_rice h
    exact ⟨⟨none, n⟩, by simp [hv], rfl, hrest⟩
  · rename_i hv
    obtain ⟨⟨k', r₁⟩, hk, h⟩ := bind_eq_ok.1 h
    obtain ⟨k, rfl, hrest⟩ := BitReader.rest_of_rice hk
    dsimp only at h
    rw [UInt32.toNat_ofNat'] at h
    obtain ⟨n, rfl, hrest'⟩ := BitReader.rest_of_rice h
    refine ⟨⟨some k, n⟩, by simp [hv], rfl, ?_⟩
    rw [hrest, hrest', code, List.append_assoc]

end TransmittedNumber

/-- What the bits of a header transmit in versions above 0 only. -/
structure TransmittedSizes where
  blockSize : TransmittedNumber
  maxOrder : TransmittedNumber
  meanCount : TransmittedNumber
  skip : TransmittedNumber
  /-- The bits that are skipped. -/
  skipped : List Bool
  deriving DecidableEq, Repr

namespace TransmittedSizes

/-- The numbers among them. -/
def numbers (sizes : TransmittedSizes) : List TransmittedNumber :=
  [sizes.blockSize, sizes.maxOrder, sizes.meanCount, sizes.skip]

/-- Their bits. -/
def code (sizes : TransmittedSizes) : List Bool :=
  sizes.blockSize.code (StreamInfo.blockSizeParameter StreamInfo.defaultBlockSize) ++
    (sizes.maxOrder.code StreamInfo.orderParameter ++
      (sizes.meanCount.code StreamInfo.meansParameter ++
        (sizes.skip.code StreamInfo.skipParameter ++ sizes.skipped)))

/-- What is reported is what is transmitted and in range, every number `n` being taken for
`taken n`. -/
structure Reports (sizes : TransmittedSizes) (taken : Nat → Nat) (reported : StreamInfo.Sizes) :
    Prop where
  blockSize : reported.blockSize = taken sizes.blockSize.value
  blockSize_pos : 1 ≤ reported.blockSize
  blockSize_le : reported.blockSize ≤ 65535
  maxOrder : reported.maxOrder = taken sizes.maxOrder.value
  meanCount : reported.meanCount.toInt = taken sizes.meanCount.value
  meanCount_lt : reported.meanCount.toInt < (2 ^ 32 - 1) / 4
  skipped : sizes.skipped.length = 8 * taken sizes.skip.value

theorem code_append_inj {s s' : TransmittedSizes} {w w' : List Bool}
    (hs : ∀ n ∈ s.numbers, n.parameter.isSome = true)
    (hs' : ∀ n ∈ s'.numbers, n.parameter.isSome = true)
    (hskipped : s.skip = s'.skip → s.skipped.length = s'.skipped.length)
    (h : s.code ++ w = s'.code ++ w') : s = s' ∧ w = w' := by
  obtain ⟨blockSize, maxOrder, meanCount, skip, skipped⟩ := s
  obtain ⟨blockSize', maxOrder', meanCount', skip', skipped'⟩ := s'
  simp only [numbers, List.forall_mem_cons] at hs hs'
  obtain ⟨hb, ho, hm, hk, -⟩ := hs
  obtain ⟨hb', ho', hm', hk', -⟩ := hs'
  simp only [code, List.append_assoc] at h
  obtain ⟨rfl, h₁⟩ := TransmittedNumber.code_append_inj (hb.trans hb'.symm) h
  obtain ⟨rfl, h₂⟩ := TransmittedNumber.code_append_inj (ho.trans ho'.symm) h₁
  obtain ⟨rfl, h₃⟩ := TransmittedNumber.code_append_inj (hm.trans hm'.symm) h₂
  obtain ⟨rfl, h₄⟩ := TransmittedNumber.code_append_inj (hk.trans hk'.symm) h₃
  obtain ⟨rfl, hw⟩ := List.append_inj h₄ (hskipped rfl)
  exact ⟨rfl, hw⟩

/-- Where it is known what is reported, its numbers can be taken in another way exactly if each of
them comes out the same. -/
theorem Reports.iff {sizes : TransmittedSizes} {taken taken' : Nat → Nat}
    {reported : StreamInfo.Sizes} (h : sizes.Reports taken reported) :
    sizes.Reports taken' reported ↔ ∀ n ∈ sizes.numbers, taken' n.value = taken n.value := by
  simp only [numbers, List.forall_mem_cons]
  constructor
  · intro h'
    have hskip := h'.skipped.symm.trans h.skipped
    exact ⟨h'.blockSize.symm.trans h.blockSize, h'.maxOrder.symm.trans h.maxOrder,
      Int.ofNat_inj.1 (h'.meanCount.symm.trans h.meanCount), by omega,
      List.forall_mem_nil _⟩
  · rintro ⟨hblockSize, hmaxOrder, hmeanCount, hskip, -⟩
    exact ⟨by rw [hblockSize, h.blockSize], h.blockSize_pos, h.blockSize_le,
      by rw [hmaxOrder, h.maxOrder], by rw [hmeanCount, h.meanCount], h.meanCount_lt,
      by rw [hskip, h.skipped]⟩

theorem of_skipBytes {r r' : BitReader} {n : Nat} (h : StreamInfo.skipBytes r n = .ok r') :
    ∃ skipped : List Bool, skipped.length = 8 * n ∧ r.rest = skipped ++ r'.rest := by
  induction n generalizing r with
  | zero =>
    cases h
    exact ⟨[], rfl, rfl⟩
  | succ n ih =>
    obtain ⟨r₁, hr₁, h⟩ := bind_eq_ok.1 h
    obtain ⟨hle, rfl⟩ := BitReader.passes_of_skip hr₁
    obtain ⟨skipped, hlength, hrest⟩ := ih h
    refine ⟨r.rest.take 8 ++ skipped, ?_, ?_⟩
    · rw [BitReader.available] at hle
      rw [List.length_append, List.length_take, hlength]
      omega
    · rw [List.append_assoc, ← hrest, BitReader.advance, List.take_append_drop]

/-- Wherever the parameters of versions above 0 were read, they were transmitted, and what was read
is what is left of them in 32 bits. -/
theorem of_read {version : UInt8} (hv : version ≠ 0) {r r' : BitReader}
    {read : StreamInfo.Sizes} (h : StreamInfo.Sizes.read version r = .ok (read, r')) :
    ∃ sizes : TransmittedSizes, (∀ n ∈ sizes.numbers, n.parameter.isSome = decide (version ≠ 0)) ∧
      sizes.Reports (· % 2 ^ 32) read ∧ r.rest = sizes.code ++ r'.rest := by
  rw [StreamInfo.Sizes.read, if_neg hv] at h
  obtain ⟨⟨u₁, r₁⟩, h₁, h⟩ := bind_eq_ok.1 h
  obtain ⟨_, hblockSize, h⟩ := bind_eq_ok.1 h
  obtain ⟨⟨u₂, r₂⟩, h₂, h⟩ := bind_eq_ok.1 h
  obtain ⟨⟨u₃, r₃⟩, h₃, h⟩ := bind_eq_ok.1 h
  obtain ⟨_, hmeanCount, h⟩ := bind_eq_ok.1 h
  obtain ⟨⟨u₄, r₄⟩, h₄, h⟩ := bind_eq_ok.1 h
  obtain ⟨r₅, h₅, h⟩ := bind_eq_ok.1 h
  cases h
  obtain ⟨blockSize, hb, rfl, hrest₁⟩ := TransmittedNumber.of_adaptive (lift_read_eq_ok.1 h₁)
  obtain ⟨maxOrder, ho, rfl, hrest₂⟩ := TransmittedNumber.of_adaptive (lift_read_eq_ok.1 h₂)
  obtain ⟨meanCount, hm, rfl, hrest₃⟩ := TransmittedNumber.of_adaptive (lift_read_eq_ok.1 h₃)
  obtain ⟨skip, hk, rfl, hrest₄⟩ := TransmittedNumber.of_adaptive (lift_read_eq_ok.1 h₄)
  obtain ⟨skipped, hskipped, hrest₅⟩ := of_skipBytes (lift_read_eq_ok.1 h₅)
  simp only [ensure_eq_ok, UInt32.toNat_ofNat'] at hblockSize hmeanCount hskipped
  refine ⟨⟨blockSize, maxOrder, meanCount, skip, skipped⟩, ?_, ?_, ?_⟩
  · simp only [numbers, List.forall_mem_cons]
    exact ⟨hb, ho, hm, hk, List.forall_mem_nil _⟩
  · have hlimit : StreamInfo.sizeLimit = (2 ^ 32 - 1) / 4 := rfl
    have hwrap : Int32.ofNat meanCount.value = Int32.ofNat (meanCount.value % 2 ^ 32) := by
      rw [← UInt32.toInt32_ofNat', ← UInt32.toInt32_ofNat', UInt32.ofNat_mod_size]
    have hmean : (UInt32.ofNat meanCount.value).toInt32.toInt =
        ((meanCount.value % 2 ^ 32 : Nat) : Int) := by
      rw [UInt32.toInt32_ofNat', hwrap, Int32.toInt_ofNat_of_lt (by omega)]
    refine ⟨UInt32.toNat_ofNat', hblockSize.1, hblockSize.2, UInt32.toNat_ofNat', hmean, ?_,
      hskipped⟩
    show (UInt32.ofNat meanCount.value).toInt32.toInt < _
    rw [hmean]
    omega
  · rw [hrest₁, hrest₂, hrest₃, hrest₄, hrest₅]
    simp only [code, List.append_assoc]

end TransmittedSizes

/-- What the bits in front of the WAVE header transmit. -/
structure TransmittedPreamble where
  version : UInt8
  typeCode : TransmittedNumber
  channels : TransmittedNumber
  /-- Version 0 transmits nothing of this. -/
  sizes : Option TransmittedSizes
  deriving DecidableEq, Repr

namespace TransmittedPreamble

variable {t t' : TransmittedPreamble}

/-- The numbers among them. -/
def numbers (t : TransmittedPreamble) : List TransmittedNumber :=
  t.typeCode :: t.channels :: t.sizes.elim [] TransmittedSizes.numbers

/-- Their bits. -/
def code (t : TransmittedPreamble) : List Bool :=
  Code.digits 32 StreamInfo.magic ++ (Code.digits 8 t.version.toNat ++
    (t.typeCode.code StreamInfo.typeParameter ++ (t.channels.code StreamInfo.channelsParameter ++
      t.sizes.elim [] TransmittedSizes.code)))

/-- What is transmitted fits together. -/
structure WellFormed (t : TransmittedPreamble) : Prop where
  parameter : ∀ n ∈ t.numbers, n.parameter.isSome = decide (t.version ≠ 0)
  sizes : t.sizes.isSome = decide (t.version ≠ 0)
  skipped : ∀ sizes ∈ t.sizes, sizes.skipped.length = 8 * (sizes.skip.value % 2 ^ 32)

/-- What is reported is what is transmitted and in range, every number `n` being taken for
`taken n`. -/
structure Reports (t : TransmittedPreamble) (taken : Nat → Nat) (reported : StreamInfo.Preamble) :
    Prop where
  version : reported.version = t.version
  /-- The type is 3 or 5. -/
  sampleType : reported.sampleType.code = taken t.typeCode.value
  channels : reported.channels = taken t.channels.value
  channels_pos : 1 ≤ reported.channels
  channels_le : reported.channels ≤ 8
  sizes : ∀ sizes ∈ t.sizes, sizes.Reports taken reported.sizes

theorem typeCode_mem_numbers (t : TransmittedPreamble) : t.typeCode ∈ t.numbers :=
  List.mem_cons_self

theorem channels_mem_numbers (t : TransmittedPreamble) : t.channels ∈ t.numbers :=
  List.mem_cons_of_mem _ List.mem_cons_self

theorem mem_numbers_of_sizes {s : TransmittedSizes} (hs : t.sizes = some s)
    {n : TransmittedNumber} (hn : n ∈ s.numbers) : n ∈ t.numbers := by
  rw [numbers, hs]
  exact List.mem_cons_of_mem _ (List.mem_cons_of_mem _ hn)

theorem WellFormed.sizes_append_inj (h : t.WellFormed) (h' : t'.WellFormed)
    (hversion : t.version = t'.version) {w w' : List Bool}
    (heq : t.sizes.elim [] TransmittedSizes.code ++ w =
      t'.sizes.elim [] TransmittedSizes.code ++ w') : t.sizes = t'.sizes ∧ w = w' := by
  have hsome : t.sizes.isSome = t'.sizes.isSome := by rw [h.sizes, h'.sizes, hversion]
  cases hs : t.sizes with
  | none =>
    rw [hs] at hsome heq
    have hs' : t'.sizes = none := by
      rwa [Option.isSome_none, eq_comm, Option.isSome_eq_false_iff, Option.isNone_iff_eq_none]
        at hsome
    rw [hs'] at heq
    exact ⟨hs'.symm, heq⟩
  | some s =>
    rw [hs] at hsome heq
    obtain ⟨s', hs'⟩ := Option.isSome_iff_exists.1 hsome.symm
    rw [hs'] at heq
    have hparameter : ∀ n ∈ s.numbers, n.parameter.isSome = true := fun n hn => by
      rw [h.parameter n (mem_numbers_of_sizes hs hn), ← h.sizes, hs]
      rfl
    have hparameter' : ∀ n ∈ s'.numbers, n.parameter.isSome = true := fun n hn => by
      rw [h'.parameter n (mem_numbers_of_sizes hs' hn), ← h'.sizes, hs']
      rfl
    obtain ⟨rfl, hw⟩ := TransmittedSizes.code_append_inj hparameter hparameter'
      (fun hskip => by rw [h.skipped s hs, h'.skipped s' hs', hskip]) heq
    exact ⟨hs'.symm, hw⟩

theorem WellFormed.code_append_inj (h : t.WellFormed) (h' : t'.WellFormed) {w w' : List Bool}
    (heq : t.code ++ w = t'.code ++ w') : t = t' ∧ w = w' := by
  simp only [code, List.append_assoc] at heq
  obtain ⟨hdigits, heq₁⟩ := List.append_inj (List.append_cancel_left heq)
    (by rw [Code.length_digits, Code.length_digits])
  have hversion : t.version = t'.version := by
    have hmod := congrArg Bits.toNat hdigits
    rw [Code.toNat_digits, Code.toNat_digits, Nat.mod_eq_of_lt t.version.toNat_lt,
      Nat.mod_eq_of_lt t'.version.toNat_lt] at hmod
    exact UInt8.toNat_inj.1 hmod
  -- a number has a parameter in both, or in neither
  have hparameter {m n : TransmittedNumber} (hm : m ∈ t.numbers) (hn : n ∈ t'.numbers) :
      m.parameter.isSome = n.parameter.isSome := by
    rw [h.parameter m hm, h'.parameter n hn, hversion]
  obtain ⟨htype, heq₂⟩ := TransmittedNumber.code_append_inj
    (hparameter t.typeCode_mem_numbers t'.typeCode_mem_numbers) heq₁
  obtain ⟨hchannels, heq₃⟩ := TransmittedNumber.code_append_inj
    (hparameter t.channels_mem_numbers t'.channels_mem_numbers) heq₂
  obtain ⟨hsizes, hw⟩ := h.sizes_append_inj h' hversion heq₃
  cases t
  cases t'
  exact ⟨by simp_all, hw⟩

theorem Reports.iff {taken taken' : Nat → Nat} {reported : StreamInfo.Preamble}
    (h : t.Reports taken reported) :
    t.Reports taken' reported ↔ ∀ n ∈ t.numbers, taken' n.value = taken n.value := by
  rw [numbers, List.forall_mem_cons, List.forall_mem_cons]
  constructor
  · intro h'
    refine ⟨h'.sampleType.symm.trans h.sampleType, h'.channels.symm.trans h.channels, ?_⟩
    cases hs : t.sizes with
    | none => exact List.forall_mem_nil _
    | some s => exact (h.sizes s hs).iff.1 (h'.sizes s hs)
  · rintro ⟨htype, hchannels, hsizes⟩
    refine ⟨h.version, by rw [htype, h.sampleType], by rw [hchannels, h.channels],
      h.channels_pos, h.channels_le, fun s hs => (h.sizes s hs).iff.2 ?_⟩
    rwa [hs] at hsizes

/-- The parameters of versions above 0 were transmitted, if the version has them. -/
theorem exists_sizes {version : UInt8} {r r' : BitReader} {read : StreamInfo.Sizes}
    (h : StreamInfo.Sizes.read version r = .ok (read, r')) :
    ∃ sizes : Option TransmittedSizes, sizes.isSome = decide (version ≠ 0) ∧
      (∀ n ∈ sizes.elim [] TransmittedSizes.numbers,
        n.parameter.isSome = decide (version ≠ 0)) ∧
      (∀ s ∈ sizes, s.Reports (· % 2 ^ 32) read) ∧
      r.rest = sizes.elim [] TransmittedSizes.code ++ r'.rest := by
  by_cases hv : version = 0
  · rw [StreamInfo.Sizes.read, if_pos hv] at h
    cases h
    exact ⟨none, by simp [hv], List.forall_mem_nil _, by rintro s ⟨⟩, rfl⟩
  · obtain ⟨sizes, hparameter, hreports, hrest⟩ := TransmittedSizes.of_read hv h
    refine ⟨some sizes, by simp [hv], hparameter, ?_, hrest⟩
    rintro s ⟨⟩
    exact hreports

/-- What was read in front of the WAVE header was transmitted, and is what is left of it in 32
bits. -/
theorem of_read {r r' : BitReader} {read : StreamInfo.Preamble}
    (h : StreamInfo.Preamble.read r = .ok (read, r')) :
    ∃ t : TransmittedPreamble, t.WellFormed ∧ t.Reports (· % 2 ^ 32) read ∧
      r.rest = t.code ++ r'.rest := by
  obtain ⟨⟨found, r₁⟩, hfound, h⟩ := bind_eq_ok.1 h
  obtain ⟨_, hmagic, h⟩ := bind_eq_ok.1 h
  obtain ⟨⟨version, r₂⟩, hversion, h⟩ := bind_eq_ok.1 h
  obtain ⟨⟨u₁, r₃⟩, h₁, h⟩ := bind_eq_ok.1 h
  obtain ⟨⟨u₂, r₄⟩, h₂, h⟩ := bind_eq_ok.1 h
  obtain ⟨_, hpos, h⟩ := bind_eq_ok.1 h
  obtain ⟨_, hle, h⟩ := bind_eq_ok.1 h
  obtain ⟨⟨sizes', r₅⟩, hsizes, h⟩ := bind_eq_ok.1 h
  obtain ⟨_, -, h⟩ := bind_eq_ok.1 h
  obtain ⟨-, hrest⟩ := BitReader.rest_of_bits (lift_read_eq_ok.1 hfound)
  obtain ⟨hlt, hrest₁⟩ := BitReader.rest_of_bits (lift_read_eq_ok.1 hversion)
  obtain ⟨typeCode, htype, rfl, hrest₂⟩ := TransmittedNumber.of_adaptive (lift_read_eq_ok.1 h₁)
  obtain ⟨channels, hchannels, rfl, hrest₃⟩ :=
    TransmittedNumber.of_adaptive (lift_read_eq_ok.1 h₂)
  obtain ⟨sizes, hsome, hnumbers, hreports, hrest₄⟩ := exists_sizes hsizes
  simp only [ensure_eq_ok, UInt32.toNat_ofNat'] at hmagic hpos hle
  split at h
  · cases h
  · rename_i sampleType hsampleType
    cases h
    rw [UInt32.toNat_ofNat'] at hsampleType
    refine ⟨⟨UInt8.ofNat version, typeCode, channels, sizes⟩, ⟨?_, hsome, fun s hs => ?_⟩,
      ⟨rfl, SampleType.code_of_ofCode? hsampleType, UInt32.toNat_ofNat', ?_, ?_, hreports⟩, ?_⟩
    · rw [numbers, List.forall_mem_cons, List.forall_mem_cons]
      exact ⟨htype, hchannels, hnumbers⟩
    · exact (hreports s hs).skipped
    · show 1 ≤ (UInt32.ofNat channels.value).toNat
      rw [UInt32.toNat_ofNat']
      exact Nat.pos_of_ne_zero hpos
    · show (UInt32.ofNat channels.value).toNat ≤ 8
      rw [UInt32.toNat_ofNat']
      exact hle
    · rw [hrest, hrest₁, hrest₂, hrest₃, hrest₄, hmagic]
      simp only [code, List.append_assoc, UInt8.toNat_ofNat_of_lt' hlt]

end TransmittedPreamble

/-- What the bits of the verbatim block with the WAVE header transmit. -/
structure TransmittedBlock where
  command : Nat
  length : Nat
  /-- A number for each byte. -/
  bytes : List Nat
  deriving DecidableEq, Repr

namespace TransmittedBlock

variable {t t' : TransmittedBlock}

/-- The bits of the block. -/
def code (t : TransmittedBlock) : List Bool :=
  Code.rice Command.codeParameter t.command ++
    (Code.rice StreamInfo.verbatimLengthParameter t.length ++
      t.bytes.flatMap (Code.rice StreamInfo.verbatimByteParameter))

/-- There are as many bytes as the block is long. -/
def WellFormed (t : TransmittedBlock) : Prop :=
  t.bytes.length = t.length % 2 ^ 32

/-- What is reported is what is transmitted and in range, every number `n` being taken for
`taken n`. -/
structure Reports (t : TransmittedBlock) (taken : Nat → Nat) (reported : Bytes) : Prop where
  command : taken t.command = 9
  length : reported.length = taken t.length
  length_ge : 44 ≤ reported.length
  length_le : reported.length ≤ 16383
  bytes : reported = t.bytes.map UInt8.ofNat

theorem WellFormed.code_append_inj (h : t.WellFormed) (h' : t'.WellFormed) {w w' : List Bool}
    (heq : t.code ++ w = t'.code ++ w') : t = t' ∧ w = w' := by
  obtain ⟨command, length, bytes⟩ := t
  obtain ⟨command', length', bytes'⟩ := t'
  simp only [code, List.append_assoc] at heq
  obtain ⟨rfl, heq₁⟩ := Code.rice_append_inj heq
  obtain ⟨rfl, heq₂⟩ := Code.rice_append_inj heq₁
  obtain ⟨rfl, hw⟩ := Code.flatMap_rice_append_inj (h.trans h'.symm) heq₂
  exact ⟨rfl, hw⟩

theorem Reports.iff {taken taken' : Nat → Nat} {reported : Bytes} (h : t.Reports taken reported) :
    t.Reports taken' reported ↔
      taken' t.command = taken t.command ∧ taken' t.length = taken t.length := by
  constructor
  · intro h'
    exact ⟨h'.command.trans h.command.symm, h'.length.symm.trans h.length⟩
  · rintro ⟨hcommand, hlength⟩
    exact ⟨by rw [hcommand, h.command], by rw [hlength, h.length], h.length_ge, h.length_le,
      h.bytes⟩

/-- The verbatim block that was read was transmitted, and is what is left of it in 32 bits. -/
theorem of_read {r r' : BitReader} {read : Bytes}
    (h : StreamInfo.readWaveHeader r = .ok (read, r')) :
    ∃ t : TransmittedBlock, t.WellFormed ∧ t.Reports (· % 2 ^ 32) read ∧
      r.rest = t.code ++ r'.rest := by
  obtain ⟨⟨u₁, r₁⟩, h₁, h⟩ := bind_eq_ok.1 h
  obtain ⟨_, hcommand, h⟩ := bind_eq_ok.1 h
  obtain ⟨⟨u₂, r₂⟩, h₂, h⟩ := bind_eq_ok.1 h
  obtain ⟨_, hlength, h⟩ := bind_eq_ok.1 h
  obtain ⟨⟨us, r₃⟩, h₃, h⟩ := bind_eq_ok.1 h
  cases h
  obtain ⟨command, rfl, hrest₁⟩ := BitReader.rest_of_rice (lift_read_eq_ok.1 h₁)
  obtain ⟨length, rfl, hrest₂⟩ := BitReader.rest_of_rice (lift_read_eq_ok.1 h₂)
  obtain ⟨bytes, rfl, hbytes, hrest₃⟩ := BitReader.rest_of_riceMany (lift_read_eq_ok.1 h₃)
  simp only [ensure_eq_ok, UInt32.toNat_ofNat'] at hcommand hlength hbytes
  have hreported : ((bytes.map UInt32.ofNat).map (·.toUInt8)).length = length % 2 ^ 32 := by
    rw [List.length_map, List.length_map, hbytes]
  refine ⟨⟨command, length, bytes⟩, hbytes, ⟨(Command.code_of_ofCode? hcommand).symm, hreported,
    ?_, ?_, ?_⟩, ?_⟩
  · rw [hreported]
    exact hlength.1
  · rw [hreported]
    exact Nat.le_of_lt_succ hlength.2
  · rw [List.map_map]
    exact List.map_congr_left fun n _ => UInt32.toUInt8_ofNat' n
  · rw [hrest₁, hrest₂, hrest₃]
    simp only [code, List.append_assoc]

end TransmittedBlock

/-- What the bits of a header transmit. -/
structure Transmission where
  preamble : TransmittedPreamble
  block : TransmittedBlock
  deriving DecidableEq, Repr

namespace Transmission

variable {t t' : Transmission} {info : StreamInfo}

/-- The bits of a header. -/
def code (t : Transmission) : List Bool :=
  t.preamble.code ++ t.block.code

/-- What is transmitted fits together. -/
structure WellFormed (t : Transmission) : Prop where
  preamble : t.preamble.WellFormed
  block : t.block.WellFormed

/-- What is reported is what is transmitted and in range, every number `n` being taken for
`taken n`. -/
structure Reports (t : Transmission) (taken : Nat → Nat) (info : StreamInfo) : Prop where
  preamble : t.preamble.Reports taken ⟨info.version, info.sampleType, info.channels,
    ⟨info.blockSize, info.maxOrder, info.meanCount⟩⟩
  block : t.block.Reports taken info.waveHeader

/-- The transmitted numbers, without the parameters that come with them and without the bytes of the
verbatim block. -/
def values (t : Transmission) : List Nat :=
  t.block.command :: t.block.length :: t.preamble.numbers.map (·.value)

/-- The parameters that come with them. -/
def parameters (t : Transmission) : List Nat :=
  t.preamble.numbers.filterMap (·.parameter)

/-- What is reported is what is transmitted, and it is in range, without any reduction. -/
structure Exact (t : Transmission) (info : StreamInfo) : Prop where
  parameter : ∀ k ∈ t.parameters, k % 2 ^ 32 = k
  reports : t.Reports (fun n => n) info

theorem Reports.iff {taken taken' : Nat → Nat} (h : t.Reports taken info) :
    t.Reports taken' info ↔ ∀ n ∈ t.values, taken' n = taken n := by
  rw [values, List.forall_mem_cons, List.forall_mem_cons, List.forall_mem_map, ← and_assoc,
    ← h.block.iff, ← h.preamble.iff]
  exact ⟨fun h' => ⟨h'.block, h'.preamble⟩, fun h' => ⟨h'.2, h'.1⟩⟩

/-- Where the numbers are reported as what is left of them in 32 bits, they are reported as they are
exactly if all of them, and their parameters, fit in 32 bits. -/
theorem exact_iff (h : t.Reports (· % 2 ^ 32) info) :
    t.Exact info ↔ ∀ n ∈ t.values ++ t.parameters, n < 2 ^ 32 := by
  have hfits (n : Nat) : n % 2 ^ 32 = n ↔ n < 2 ^ 32 :=
    ⟨fun hn => hn ▸ Nat.mod_lt n (Nat.two_pow_pos 32), Nat.mod_eq_of_lt⟩
  have hvalues : t.Reports (fun n => n) info ↔ ∀ n ∈ t.values, n < 2 ^ 32 :=
    h.iff.trans (forall₂_congr fun n _ => eq_comm.trans (hfits n))
  have hparameters : (∀ k ∈ t.parameters, k % 2 ^ 32 = k) ↔ ∀ k ∈ t.parameters, k < 2 ^ 32 :=
    forall₂_congr fun k _ => hfits k
  rw [List.forall_mem_append, ← hvalues, ← hparameters]
  exact ⟨fun h' => ⟨h'.reports, h'.parameter⟩, fun h' => ⟨h'.2, h'.1⟩⟩

/-- **The bits of a header tell what they transmit.** -/
theorem WellFormed.eq_of_code (h : t.WellFormed) (h' : t'.WellFormed) {w w' : List Bool}
    (heq : t.code ++ w = t'.code ++ w') : t = t' := by
  obtain ⟨preamble, block⟩ := t
  obtain ⟨preamble', block'⟩ := t'
  simp only [code, List.append_assoc] at heq
  obtain ⟨rfl, heq₁⟩ := h.preamble.code_append_inj h'.preamble heq
  obtain ⟨rfl, -⟩ := h.block.code_append_inj h'.block heq₁
  rfl

/-- **What is reported was transmitted**, and is what is left of it in 32 bits. -/
theorem of_read {failLevel : Level} {r r' : BitReader}
    (h : (StreamInfo.read failLevel r).outcome = .ok (info, r')) :
    ∃ t : Transmission, t.WellFormed ∧ t.Reports (· % 2 ^ 32) info ∧
      r.rest = t.code ++ r'.rest := by
  rw [StreamInfo.outcome_read] at h
  obtain ⟨⟨preamble, r₁⟩, hpreamble, h⟩ := bind_eq_ok.1 h
  obtain ⟨⟨waveHeader, r₂⟩, hblock, h⟩ := bind_eq_ok.1 h
  obtain ⟨info', hinfo, h⟩ := bind_eq_ok.1 h
  cases h
  obtain ⟨p, hp, hpreports, hrest⟩ := TransmittedPreamble.of_read hpreamble
  obtain ⟨b, hb, hbreports, hrest'⟩ := TransmittedBlock.of_read hblock
  obtain ⟨wave, -, hinfo⟩ := bind_eq_ok.1 hinfo
  split at hinfo
  · cases hinfo
  · cases hinfo
    exact ⟨⟨p, b⟩, ⟨hp, hb⟩, ⟨hpreports, hbreports⟩, by rw [hrest, hrest', code, List.append_assoc]⟩

end Transmission

/-- **An accepted header transmits one thing only**, and reports what is left of its numbers in 32
bits.  So what is reported is what is transmitted, and what is transmitted is in range, if and only
if all of its numbers fit in 32 bits. -/
theorem transmission_of_read {bytes : Bytes} {failLevel : Level} {info : StreamInfo}
    {r : BitReader}
    (h : (StreamInfo.read failLevel (.ofBytes bytes)).outcome = .ok (info, r)) :
    ∃ t : Transmission, t.WellFormed ∧ Bits.ofBytes bytes = t.code ++ r.rest ∧
      (∀ (t' : Transmission) (rest : List Bool), t'.WellFormed →
        Bits.ofBytes bytes = t'.code ++ rest → t' = t) ∧
      t.Reports (· % 2 ^ 32) info ∧
      (t.Exact info ↔ ∀ n ∈ t.values ++ t.parameters, n < 2 ^ 32) := by
  obtain ⟨t, ht, hreports, hcode⟩ := Transmission.of_read h
  refine ⟨t, ht, hcode, fun t' rest ht' hcode' => ?_, hreports, Transmission.exact_iff hreports⟩
  exact ht'.eq_of_code ht (hcode'.symm.trans hcode)

/-- A header that transmits `2 * 2 ^ 31 + 2` channels, as a quotient and a remainder of 31 bits. -/
def wideChannels : Bytes :=
  [0x61, 0x6a, 0x6b, 0x67, 0x02, 0xfa, 0x03, 0x90, 0x00, 0x00, 0x00, 0x44, 0x40, 0x26, 0x64,
    0xab, 0x2a, 0x54, 0x9a, 0x35, 0x1a, 0x79, 0x00, 0x80, 0x40, 0x2a, 0xf4, 0x1a, 0xb5, 0x16,
    0xcd, 0x6d, 0xba, 0x48, 0x22, 0x10, 0x08, 0x04, 0x02, 0x03, 0x00, 0x80, 0xc0, 0x28, 0x9a,
    0xc8, 0x04, 0x03, 0x11, 0x58, 0x80, 0xc0, 0x20, 0x50, 0x08, 0x84, 0x02, 0xc9, 0x61, 0xba,
    0x58, 0x61, 0x10, 0x08, 0x04, 0x00]

/-- What the bits of `wideChannels` transmit. -/
def wideTransmission : Transmission where
  preamble :=
    { version := 2
      typeCode := ⟨some 3, 5⟩
      channels := ⟨some 31, 4294967298⟩
      sizes := some
        { blockSize := ⟨some 8, 256⟩
          maxOrder := ⟨some 0, 0⟩
          meanCount := ⟨some 0, 0⟩
          skip := ⟨some 0, 0⟩
          skipped := [] } }
  block :=
    { command := 9
      length := 44
      bytes :=
        [82, 73, 70, 70, 60, 0, 0, 0, 87, 65, 86, 69, 102, 109, 116, 32, 16, 0, 0, 0, 1, 0, 1, 0,
          68, 172, 0, 0, 136, 88, 1, 0, 2, 0, 16, 0, 100, 97, 116, 97, 8, 0, 0, 0] }

theorem wideTransmission_wellFormed : wideTransmission.WellFormed where
  preamble := ⟨by decide, rfl, by rintro sizes ⟨⟩; rfl⟩
  block := rfl

theorem ofBytes_wideChannels :
    Bits.ofBytes wideChannels = wideTransmission.code ++ [false, false] := by
  decide +kernel

/-- The header is accepted, and two channels are reported. -/
theorem outcome_wideChannels :
    (StreamInfo.read .warn (.ofBytes wideChannels)).outcome =
      .ok (⟨2, .littleEndian, 2, 256, 0, 0, 44100, 16,
        wideTransmission.block.bytes.map UInt8.ofNat⟩, ⟨526, [false, false]⟩) := by
  decide +kernel

theorem transmission_of_read_wideChannels :
    ∃ info r, (StreamInfo.read .warn (.ofBytes wideChannels)).outcome = .ok (info, r) ∧
      ∃ t : Transmission, t.WellFormed ∧ Bits.ofBytes wideChannels = t.code ++ r.rest ∧
        (∀ (t' : Transmission) (rest : List Bool), t'.WellFormed →
          Bits.ofBytes wideChannels = t'.code ++ rest → t' = t) ∧
        t.Reports (· % 2 ^ 32) info ∧
        (t.Exact info ↔ ∀ n ∈ t.values ++ t.parameters, n < 2 ^ 32) :=
  ⟨_, _, outcome_wideChannels, transmission_of_read outcome_wideChannels⟩

/-- **Not every accepted header transmits what is reported**: this one transmits more than 4 billion
channels. -/
theorem accepted_too_wide :
    ∃ info r, (StreamInfo.read .warn (.ofBytes wideChannels)).outcome = .ok (info, r) ∧
      ¬ ∃ t : Transmission, t.WellFormed ∧ Bits.ofBytes wideChannels = t.code ++ r.rest ∧
        t.Exact info := by
  refine ⟨_, _, outcome_wideChannels, fun ⟨t, ht, hcode, hexact⟩ => ?_⟩
  obtain rfl : t = wideTransmission :=
    ht.eq_of_code wideTransmission_wellFormed (hcode.symm.trans ofBytes_wideChannels)
  have hchannels : 2 = 4294967298 := hexact.reports.preamble.channels
  exact absurd hchannels (by decide)

end LosslessAudio
