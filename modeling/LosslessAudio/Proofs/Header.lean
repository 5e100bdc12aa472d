import LosslessAudio.Proofs.Encoder
import LosslessAudio.Proofs.SelfDelimiting

/-!
# Writing a header

`Header` holds what a writer puts in front of a stream, with the freedom that the format leaves:
every adaptive number may come with any parameter, and bytes that no decoder understands may be
skipped.  A header within the bounds of the format is read as what was written (`reads_header`).
-/

set_option autoImplicit false

namespace LosslessAudio

/-- What a writer puts into a header. -/
structure Header where
  version : UInt8
  sampleType : SampleType
  channels : Nat
  /-- Not transmitted by version 0, like the next three. -/
  blockSize : Nat
  maxOrder : Nat
  meanCount : Nat
  skipped : Bytes
  waveHeader : Bytes
  /-- The parameters that are transmitted with the adaptive numbers, in the order of these. -/
  parameter : Nat → Nat

/-- The number that a sample type is written as. -/
def SampleType.code : SampleType → Nat
  | .bigEndian => 3
  | .littleEndian => 5

theorem SampleType.code_of_ofCode? {n : Nat} {sampleType : SampleType}
    (h : SampleType.ofCode? n = some sampleType) : sampleType.code = n := by
  unfold SampleType.ofCode? at h
  split at h <;> cases h <;> rfl

namespace Header

variable (h : Header)

/-- The parameters that only versions above 0 transmit. -/
def sizes : StreamInfo.Sizes :=
  if h.version = 0 then .default else ⟨h.blockSize, h.maxOrder, Int32.ofNat h.meanCount⟩

/-- Everything in front of the WAVE header. -/
def preamble : StreamInfo.Preamble :=
  ⟨h.version, h.sampleType, h.channels, h.sizes⟩

/-- The code of the `i`-th adaptive number. -/
def number (i hint n : Nat) : List Bool :=
  Code.adaptive h.version hint (h.parameter i) n

/-- The code of the parameters that only versions above 0 transmit. -/
def sizesCode : List Bool :=
  if h.version = 0 then []
  else
    h.number 2 (StreamInfo.blockSizeParameter StreamInfo.defaultBlockSize) h.blockSize ++
      (h.number 3 StreamInfo.orderParameter h.maxOrder ++
        (h.number 4 StreamInfo.meansParameter h.meanCount ++
          (h.number 5 StreamInfo.skipParameter h.skipped.length ++ Bits.ofBytes h.skipped)))

/-- The code of everything in front of the WAVE header. -/
def preambleCode : List Bool :=
  Code.digits 32 StreamInfo.magic ++ (Code.digits 8 h.version.toNat ++
    (h.number 0 StreamInfo.typeParameter h.sampleType.code ++
      (h.number 1 StreamInfo.channelsParameter h.channels ++ h.sizesCode)))

/-- The code of the verbatim block with the WAVE header. -/
def waveCode : List Bool :=
  Code.rice Command.codeParameter Command.verbatim.code ++
    (Code.rice StreamInfo.verbatimLengthParameter h.waveHeader.length ++
      (h.waveHeader.map (·.toNat)).flatMap (Code.rice StreamInfo.verbatimByteParameter))

/-- The code of the header. -/
def code : List Bool :=
  h.preambleCode ++ h.waveCode

/-- A header within the bounds of the format, to a decoder with a given fail level. -/
structure Valid (failLevel : Level) : Prop where
  parameter_le : ∀ i, h.parameter i ≤ Rice.maxParameter
  channels_pos : h.channels ≠ 0
  channels_le : h.channels ≤ StreamInfo.maxChannels
  blockSize_pos : 0 < h.blockSize
  blockSize_le : h.blockSize ≤ StreamInfo.maxBlockSize
  meanCount_lt : h.meanCount < StreamInfo.sizeLimit
  history_lt : h.blockSize + StreamInfo.contextFor h.maxOrder < StreamInfo.sizeLimit
  skipped_lt : h.skipped.length < 2 ^ 32
  waveHeader_le : StreamInfo.minimalWaveHeader ≤ h.waveHeader.length
  waveHeader_lt : h.waveHeader.length < StreamInfo.waveHeaderLimit
  version : ¬(StreamInfo.latestVersion < h.version ∧ Level.warn ≤ failLevel)

end Header

open StreamInfo

theorem reads_skipBytes (bytes : Bytes) :
    Reads (fun r => skipBytes r bytes.length >>= fun r => .ok ((), r)) (Bits.ofBytes bytes) () := by
  induction bytes with
  | nil => exact Reads.pure ()
  | cons b bytes ih =>
    intro p rest
    have htake : (Bits.ofByte b ++ (Bits.ofBytes bytes ++ rest)).take 8 = Bits.ofByte b :=
      List.take_left' (Bits.length_ofByte b)
    have hdrop : (Bits.ofByte b ++ (Bits.ofBytes bytes ++ rest)).drop 8 =
        Bits.ofBytes bytes ++ rest := List.drop_left' (Bits.length_ofByte b)
    have hskip : BitReader.skip ⟨p, Bits.ofBytes (b :: bytes) ++ rest⟩ 8 =
        .ok ⟨p + 8, Bits.ofBytes bytes ++ rest⟩ := by
      rw [BitReader.skip, Bits.ofBytes_cons, List.append_assoc]
      dsimp only
      rw [htake, if_pos (Bits.length_ofByte b), BitReader.advance, hdrop]
    have h := ih (p + 8) rest
    dsimp only [List.length_cons] at h ⊢
    rw [skipBytes, hskip, ok_bind, h, Bits.length_ofBytes, Bits.length_ofBytes, List.length_cons]
    congr 3
    omega

section

variable {h : Header} {failLevel : Level}

theorem reads_number {i hint n : Nat} (hvalid : h.Valid failLevel)
    (hhint : hint ≤ Rice.maxParameter) :
    Reads (fun r => (liftM (r.adaptive h.version hint) : Except Fault (UInt32 × BitReader)))
      (h.number i hint n) (UInt32.ofNat n) :=
  (BitReader.reads_adaptive hhint (hvalid.parameter_le i) n).lift

theorem toNat_ofNat_of_lt_sizeLimit {n : Nat} (hn : n < sizeLimit) : (UInt32.ofNat n).toNat = n :=
  UInt32.toNat_ofNat_of_lt' (Nat.lt_trans hn (by decide))

theorem reads_sizes (hvalid : h.Valid failLevel) :
    Reads (fun r => Sizes.read h.version r) h.sizesCode h.sizes := by
  have hblockSize : (UInt32.ofNat h.blockSize).toNat = h.blockSize :=
    toNat_ofNat_of_lt_sizeLimit (Nat.lt_of_le_of_lt hvalid.blockSize_le (by decide))
  have hmeanCount := toNat_ofNat_of_lt_sizeLimit hvalid.meanCount_lt
  have hmaxOrder : (UInt32.ofNat h.maxOrder).toNat = h.maxOrder := by
    refine toNat_ofNat_of_lt_sizeLimit (Nat.lt_of_le_of_lt ?_ hvalid.history_lt)
    exact Nat.le_trans (Nat.le_max_right _ _) (Nat.le_add_left _ _)
  have hskipped : (UInt32.ofNat h.skipped.length).toNat = h.skipped.length :=
    UInt32.toNat_ofNat_of_lt' hvalid.skipped_lt
  by_cases hv : h.version = 0
  · simp only [Sizes.read, Header.sizesCode, Header.sizes, if_pos hv]
    exact Reads.pure _
  simp only [Sizes.read, Header.sizesCode, Header.sizes, if_neg hv]
  refine (reads_number hvalid (by decide)).bind ?_
  dsimp only
  refine .check (by rw [hblockSize]; exact ⟨hvalid.blockSize_pos, hvalid.blockSize_le⟩) ?_
  refine (reads_number hvalid (by decide)).bind ?_
  dsimp only
  refine (reads_number hvalid (by decide)).bind ?_
  dsimp only
  refine .check (by rw [hmeanCount]; exact hvalid.meanCount_lt) ?_
  refine (reads_number hvalid (by decide)).bind ?_
  dsimp only
  have hskip := (reads_skipBytes h.skipped).lift.map fun _ =>
    (⟨h.blockSize, h.maxOrder, Int32.ofNat h.meanCount⟩ : Sizes)
  simp only [SelfDelimiting.lift_read_bind, SelfDelimiting.lift_read_ok, bind_assoc,
    ok_bind] at hskip
  rw [hskipped, hblockSize, hmaxOrder, UInt32.toInt32_ofNat']
  exact hskip

theorem reads_preamble (hvalid : h.Valid failLevel) :
    Reads Preamble.read h.preambleCode h.preamble := by
  have hmagic : magic % 2 ^ 32 = magic := rfl
  have hversion : UInt8.ofNat (h.version.toNat % 2 ^ 8) = h.version := by
    rw [Nat.mod_eq_of_lt h.version.toNat_lt, UInt8.ofNat_toNat]
  have hchannels : (UInt32.ofNat h.channels).toNat = h.channels :=
    toNat_ofNat_of_lt_sizeLimit (Nat.lt_of_le_of_lt hvalid.channels_le (by decide))
  have htype : SampleType.ofCode? (UInt32.ofNat h.sampleType.code).toNat = some h.sampleType := by
    cases h.sampleType <;> rfl
  have hhistory : h.sizes.blockSize + contextFor h.sizes.maxOrder < sizeLimit := by
    rw [Header.sizes]
    split
    · decide
    · exact hvalid.history_lt
  refine (BitReader.reads_bits 32 magic).lift.bind (.check hmagic ?_)
  refine (BitReader.reads_bits 8 h.version.toNat).lift.bind ?_
  dsimp only
  rw [hversion]
  refine (reads_number hvalid (by decide)).bind ?_
  dsimp only
  refine (reads_number hvalid (by decide)).bind ?_
  dsimp only
  refine .check (by rw [hchannels]; exact hvalid.channels_pos) ?_
  refine .check (by rw [hchannels]; exact hvalid.channels_le) ?_
  rw [hchannels, htype, ← List.append_nil h.sizesCode]
  refine (reads_sizes hvalid).bind ?_
  dsimp only
  exact .check hhistory (Reads.pure h.preamble)

theorem reads_waveHeader (hvalid : h.Valid failLevel) :
    Reads readWaveHeader h.waveCode h.waveHeader := by
  have hlength : (UInt32.ofNat h.waveHeader.length).toNat = h.waveHeader.length :=
    toNat_ofNat_of_lt_sizeLimit (Nat.lt_trans hvalid.waveHeader_lt (by decide))
  have hbytes := BitReader.reads_riceMany (k := verbatimByteParameter) (by decide)
    (h.waveHeader.map (·.toNat))
  have hback : ((h.waveHeader.map (·.toNat)).map UInt32.ofNat).map (·.toUInt8) = h.waveHeader := by
    rw [List.map_map, List.map_map]
    refine (List.map_congr_left fun b _ => ?_).trans (List.map_id _)
    show (UInt32.ofNat b.toNat).toUInt8 = b
    rw [← UInt8.toNat_toUInt32, UInt32.ofNat_toNat, UInt8.toUInt8_toUInt32]
  rw [List.length_map] at hbytes
  refine (BitReader.reads_rice (by decide) Command.verbatim.code).lift.bind ?_
  refine .check rfl ?_
  refine (BitReader.reads_rice (by decide) h.waveHeader.length).lift.bind ?_
  dsimp only
  refine .check (by rw [hlength]; exact ⟨hvalid.waveHeader_le, hvalid.waveHeader_lt⟩) ?_
  rw [hlength]
  have h := hbytes.lift.map fun bytes => bytes.map (·.toUInt8)
  rw [hback] at h
  exact h

/-- **A header is read as what was written.** -/
theorem reads_header (hvalid : h.Valid failLevel) {wave : WaveFormat}
    (hwave : (WaveFormat.parse h.waveHeader).outcome = .ok wave) :
    Reads (fun r => (StreamInfo.read failLevel r).outcome) h.code
      (ofParts h.preamble h.waveHeader wave) := by
  simp only [outcome_read]
  refine (reads_preamble hvalid).bind ?_
  dsimp only
  rw [← List.append_nil h.waveCode]
  refine (reads_waveHeader hvalid).bind ?_
  have hconclude : conclude failLevel h.preamble h.waveHeader =
      .ok (ofParts h.preamble h.waveHeader wave) := by
    rw [conclude, hwave, ok_bind]
    exact if_neg hvalid.version
  dsimp only
  rw [hconclude]
  exact Reads.pure _

end

end LosslessAudio
