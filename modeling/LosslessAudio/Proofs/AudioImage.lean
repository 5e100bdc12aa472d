import LosslessAudio.AudioFile

/-!
# What is in an audio file

`AudioFormat.image` is the whole of an audio file with some samples, byte for byte.  A file that is
written in steps, through a buffer and with sizes that are put in afterwards, holds just that
(`AudioFile.Holds`); one that is left before it is finished has zeros in place of the sizes.

`WaveWriter.Carries` says this of a WAVE file with any format chunk and any sizes, and each of the
three things that are done to such a file has a lemma about it.
-/

set_option autoImplicit false

namespace LosslessAudio

/-- The format chunk of a WAVE file with 16-bit linear PCM. -/
def formatImage (sampleRate channels : Nat) : Bytes :=
  Chunk.tagOf "fmt " ++ Wire.littleEndian 4 16 ++ Wire.littleEndian 2 1 ++
    Wire.littleEndian 2 channels ++ Wire.littleEndian 4 sampleRate ++
    Wire.littleEndian 4 (sampleRate * (2 * channels)) ++ Wire.littleEndian 2 (2 * channels) ++
    Wire.littleEndian 2 16

/-- The bytes of a WAVE file whose size fields say `riffSize` and `dataSize`, around the bytes of
its format chunk. -/
def waveFile (riffSize dataSize : Nat) (format : Bytes) (samples : List Int16) : Bytes :=
  Chunk.tagOf "RIFF" ++ Wire.littleEndian 4 riffSize ++ Chunk.tagOf "WAVE" ++ format ++
    Chunk.tagOf "data" ++ Wire.littleEndian 4 dataSize ++ Wire.bytes .littleEndian samples

/-- The bytes of a WAVE file with 16-bit linear PCM. -/
def waveImage (riffSize dataSize sampleRate channels : Nat) (samples : List Int16) : Bytes :=
  Chunk.tagOf "RIFF" ++ Wire.littleEndian 4 riffSize ++ Chunk.tagOf "WAVE" ++
    formatImage sampleRate channels ++ Chunk.tagOf "data" ++ Wire.littleEndian 4 dataSize ++
    Wire.bytes .littleEndian samples

/-- The bytes of an audio file.  If it is not `finished`, the sizes in it are zero. -/
def AudioFormat.image (format : AudioFormat) (finished : Bool) (sampleRate channels : Nat)
    (samples : List Int16) : Bytes :=
  match format with
  | .wave =>
    if finished then
      waveImage (36 + 2 * samples.length) (2 * samples.length) sampleRate channels samples
    else waveImage 0 0 sampleRate channels samples
  | .bare => Wire.bytes .littleEndian samples

/-! ## Numbers -/

namespace Wire

/-- A number is written as far as it fits. -/
theorem littleEndian_mod (width n : Nat) :
    littleEndian width (n % Nat.pow 256 width) = littleEndian width n := by
  induction width generalizing n with
  | zero => rfl
  | succ width ih =>
    have hpow : Nat.pow 256 (width + 1) = 256 * Nat.pow 256 width := Nat.mul_comm ..
    have hlow : UInt8.ofNat (n % (256 * Nat.pow 256 width)) = UInt8.ofNat n := by
      rw [← UInt8.toNat_inj]
      simp [UInt8.toNat_ofNat']
    rw [littleEndian, littleEndian, hpow, Nat.mod_mul_right_div_self, ih, hlow]

theorem length_bytes_samples (samples : List Int16) :
    (bytes .littleEndian samples).length = 2 * samples.length := by
  induction samples with
  | nil => rfl
  | cons x samples ih =>
    have hcons : bytes .littleEndian (x :: samples) =
        bytes .littleEndian x ++ bytes .littleEndian samples := rfl
    have hone : (bytes .littleEndian x).length = 2 := rfl
    rw [hcons, List.length_append, ih, hone, List.length_cons]
    omega

end Wire

/-! ## Open files -/

namespace OpenFile

/-- The file will hold `bytes` once it is closed, and what is written next goes to the end. -/
structure Holds (f : OpenFile) (bytes : Bytes) : Prop where
  close_eq : f.close = bytes.toArray
  endPosition_eq : f.endPosition = bytes.length

variable {f : OpenFile} {bytes : Bytes}

theorem holds_empty : empty.Holds [] :=
  ⟨rfl, rfl⟩

theorem overwrite_end (contents data : Array UInt8) :
    overwrite contents contents.size data = contents ++ data := by
  unfold overwrite
  split
  · rename_i h
    simp [Array.size_eq_zero_iff.1 h]
  · simp

/-- Bytes that reach as far as all that is there replace it. -/
theorem holds_write_front (hend : f.endPosition = 0) {data : Bytes}
    (hsize : f.close.size ≤ data.length) : (f.write data.toArray).Holds data where
  close_eq := by
    rw [close_write, hend]
    apply Array.ext_getElem?
    intro i
    by_cases hdata : data.toArray.size = 0
    · have hempty : data = [] := by simpa using hdata
      subst hempty
      have hnone : f.close = #[] := Array.size_eq_zero_iff.1 (Nat.le_zero.1 hsize)
      simp [hnone]
    · rw [getElem?_overwrite _ _ hdata]
      grind
  endPosition_eq := by simp [hend]

theorem Holds.write (h : f.Holds bytes) (data : Bytes) :
    (f.write data.toArray).Holds (bytes ++ data) where
  close_eq := by
    have hend : f.endPosition = f.close.size := by simp [h.endPosition_eq, h.close_eq]
    rw [close_write, hend, overwrite_end, h.close_eq, List.append_toArray]
  endPosition_eq := by simp [h.endPosition_eq]

theorem Holds.flush (h : f.Holds bytes) : f.flush.Holds bytes :=
  ⟨h.close_eq, h.endPosition_eq⟩

/-- Samples may as well be written one by one. -/
theorem Holds.foldl_write {samples : List Int16} (h : f.Holds (Wire.bytes .littleEndian samples))
    (more : List Int16) :
    (more.foldl (fun f x => f.write (Wire.bytes .littleEndian x).toArray) f).Holds
      (Wire.bytes .littleEndian (samples ++ more)) := by
  induction more generalizing samples f with
  | nil => simpa using h
  | cons x more ih =>
    have hone : Wire.bytes .littleEndian [x] = Wire.bytes .littleEndian x := List.append_nil _
    rw [List.append_cons]
    refine ih ?_
    rw [Wire.bytes_list_append, hone]
    exact h.write _

/-- Writing over as many bytes in the middle. -/
theorem overwrite_middle (front old new back : Bytes) (h : old.length = new.length) :
    overwrite (front ++ old ++ back).toArray front.length new.toArray =
      (front ++ new ++ back).toArray := by
  by_cases hnew : new.toArray.size = 0
  · simp_all [overwrite]
  · apply Array.ext_getElem?
    intro i
    rw [getElem?_overwrite _ _ hnew]
    simp only [List.getElem?_toArray, List.getElem?_append, List.size_toArray, List.length_append]
    grind

end OpenFile

/-! ## WAVE files -/

theorem Chunk.length_tagOf : (tagOf "RIFF").length = 4 ∧ (tagOf "WAVE").length = 4 ∧
    (tagOf "fmt ").length = 4 ∧ (tagOf "data").length = 4 := by
  decide

theorem length_formatImage (sampleRate channels : Nat) :
    (formatImage sampleRate channels).length = 24 := by
  simp [formatImage, Chunk.length_tagOf]

@[simp] theorem FormatChunk.length_bytes_toChunk (f : FormatChunk) :
    f.toChunk.bytes.length = 24 := by
  have hbody : f.toChunk.body.length = 16 := rfl
  have htag : f.toChunk.tag.length = 4 := Chunk.length_tagOf.2.2.1
  simp [Chunk.bytes, Chunk.padding, hbody, htag]

/-- The chunk that says how the samples are stored. -/
theorem FormatChunk.bytes_pcm (sampleRate : Nat) {channels : Nat} (hchannels : channels < 32768) :
    (pcm (UInt32.ofNat sampleRate) (UInt16.ofNat channels) WaveWriter.sampleWidth).toChunk.bytes =
      formatImage sampleRate channels := by
  have hrate : (UInt32.ofNat sampleRate).toNat = sampleRate % Nat.pow 256 4 := by simp
  have hchannels' : (UInt16.ofNat channels).toNat = channels := by
    simp only [UInt16.toNat_ofNat']
    omega
  generalize UInt16.ofNat channels = c at hchannels' ⊢
  subst hchannels'
  have halign : (c * (WaveWriter.sampleWidth / 8)).toNat = 2 * c.toNat := by
    have hwidth : (WaveWriter.sampleWidth / 8).toNat = 2 := rfl
    rw [UInt16.toNat_mul, hwidth]
    omega
  have hbyteRate : (UInt32.ofNat sampleRate * (c * (WaveWriter.sampleWidth / 8)).toUInt32).toNat =
      sampleRate * (2 * c.toNat) % Nat.pow 256 4 := by
    rw [UInt32.toNat_mul, UInt16.toNat_toUInt32, halign, hrate]
    exact Nat.mod_mul_mod ..
  have hbody : Wire.bytes .littleEndian (pcm (UInt32.ofNat sampleRate) c WaveWriter.sampleWidth) =
      Wire.littleEndian 2 1 ++ (Wire.littleEndian 2 c.toNat ++ (Wire.littleEndian 4 sampleRate ++
        (Wire.littleEndian 4 (sampleRate * (2 * c.toNat)) ++
          (Wire.littleEndian 2 (2 * c.toNat) ++ Wire.littleEndian 2 16)))) := by
    rw [← Wire.littleEndian_mod 4 sampleRate, ← Wire.littleEndian_mod 4 (sampleRate * _), ← hrate,
      ← hbyteRate, ← halign]
    rfl
  rw [toChunk, Chunk.ofRecord, Chunk.bytes, hbody]
  simp [Chunk.padding, formatImage]

/-- The two sizes are put where they belong. -/
theorem overwrite_waveFile (riffSize dataSize riffSize' dataSize' : Nat) {format : Bytes}
    (hformat : format.length = 24) (samples : List Int16) :
    OpenFile.overwrite
        (OpenFile.overwrite (waveFile riffSize dataSize format samples).toArray 40
          (Wire.littleEndian 4 dataSize').toArray) 4 (Wire.littleEndian 4 riffSize').toArray =
      (waveFile riffSize' dataSize' format samples).toArray := by
  have hdata := OpenFile.overwrite_middle
    (Chunk.tagOf "RIFF" ++ Wire.littleEndian 4 riffSize ++ Chunk.tagOf "WAVE" ++ format ++
      Chunk.tagOf "data") (Wire.littleEndian 4 dataSize) (Wire.littleEndian 4 dataSize')
    (Wire.bytes .littleEndian samples) (by simp)
  have hriff := OpenFile.overwrite_middle (Chunk.tagOf "RIFF") (Wire.littleEndian 4 riffSize)
    (Wire.littleEndian 4 riffSize') (Chunk.tagOf "WAVE" ++ format ++ Chunk.tagOf "data" ++
      Wire.littleEndian 4 dataSize' ++ Wire.bytes .littleEndian samples) (by simp)
  have hplace : (Chunk.tagOf "RIFF" ++ Wire.littleEndian 4 riffSize ++ Chunk.tagOf "WAVE" ++
      format ++ Chunk.tagOf "data").length = 40 := by
    simp [Chunk.length_tagOf, hformat]
  rw [hplace] at hdata
  rw [Chunk.length_tagOf.1] at hriff
  rw [waveFile, hdata]
  simpa [waveFile] using hriff

namespace WaveWriter

/-- The writer has written its header and the samples, and these sizes are in the file. -/
structure Carries (w : WaveWriter) (riffSize dataSize : Nat) (format : Bytes)
    (samples : List Int16) : Prop where
  riffSizePosition_eq : w.riffSizePosition = 4
  dataSizePosition_eq : w.dataSizePosition = 40
  dataWritten_eq : w.dataWritten = 2 * samples.length
  length_format : format.length = 24
  file : w.file.Holds (waveFile riffSize dataSize format samples)

section

variable {w : WaveWriter} {riffSize dataSize : Nat} {format : Bytes} {samples : List Int16}

/-- A header that is written over no more than its own first bytes. -/
theorem carries_writeHeader (hend : w.file.endPosition = 0) (hsize : w.file.close.size ≤ 4)
    (hwritten : w.dataWritten = 0) : w.writeHeader.Carries 0 0 w.format.toChunk.bytes [] := by
  have hfront : w.file.close.size ≤ (Chunk.tagOf "RIFF").length := hsize
  have htag := (OpenFile.holds_write_front hend hfront).flush
  have hhead := ((((htag.write (Wire.littleEndian 4 0)).write (Chunk.tagOf "WAVE")).write
    w.format.toChunk.bytes).write (Chunk.tagOf "data")).flush
  have hfile := hhead.write (Wire.littleEndian 4 0)
  refine ⟨?_, ?_, ?_, w.format.length_bytes_toChunk, ?_⟩
  · simp [writeHeader, put, hend, Chunk.length_tagOf]
  · simp [writeHeader, put, hend, Chunk.length_tagOf]
  · simp [writeHeader, put, hwritten]
  · simpa [writeHeader, put, waveFile] using hfile

theorem Carries.writeSamples (h : w.Carries riffSize dataSize format samples) (block : List Int16) :
    (w.writeSamples block).Carries riffSize dataSize format (samples ++ block) where
  riffSizePosition_eq := h.riffSizePosition_eq
  dataSizePosition_eq := h.dataSizePosition_eq
  dataWritten_eq := by
    simp [WaveWriter.writeSamples, put, h.dataWritten_eq, Wire.length_bytes_samples, Nat.mul_add]
  length_format := h.length_format
  file := by
    have hfile := h.file.write (Wire.bytes .littleEndian block)
    simpa [waveFile, WaveWriter.writeSamples, put] using hfile

/-- Finishing puts the sizes into the file and goes back to its end. -/
theorem Carries.finish (h : w.Carries riffSize dataSize format samples)
    (hsize : 36 + 2 * samples.length < Chunk.lengthLimit) : ∃ w', w.finish = .ok w' ∧
      w'.Carries (36 + 2 * samples.length) (2 * samples.length) format samples ∧
      w'.file.contents = w'.close := by
  have hriff : w.dataWritten + headerLength - uncounted = 36 + 2 * samples.length := by
    rw [h.dataWritten_eq, headerLength, uncounted]
    omega
  have hfits : ensure (36 + 2 * samples.length < Chunk.lengthLimit) FileFault.dataTooLarge =
      .ok () := ensure_eq_ok.2 hsize
  refine ⟨_, by rw [WaveWriter.finish, hriff, hfits]; rfl, ?_, rfl⟩
  refine ⟨h.riffSizePosition_eq, h.dataSizePosition_eq, h.dataWritten_eq, h.length_format, ?_, ?_⟩
  · have hsizes := overwrite_waveFile riffSize dataSize (36 + 2 * samples.length)
      (2 * samples.length) h.length_format samples
    simpa [patch, h.riffSizePosition_eq, h.dataSizePosition_eq, h.dataWritten_eq,
      h.file.close_eq] using hsizes
  · show w.file.endPosition = _
    rw [h.file.endPosition_eq]
    simp [waveFile]

end

/-- The writer has written its header, with zeros in the size fields, and the samples. -/
structure Holds (w : WaveWriter) (sampleRate channels : Nat) (samples : List Int16) : Prop where
  riffSizePosition_eq : w.riffSizePosition = 4
  dataSizePosition_eq : w.dataSizePosition = 40
  dataWritten_eq : w.dataWritten = 2 * samples.length
  file : w.file.Holds (waveImage 0 0 sampleRate channels samples)

variable {w : WaveWriter} {sampleRate channels : Nat} {samples : List Int16}

theorem Holds.carries (h : w.Holds sampleRate channels samples) :
    w.Carries 0 0 (formatImage sampleRate channels) samples :=
  ⟨h.riffSizePosition_eq, h.dataSizePosition_eq, h.dataWritten_eq,
    length_formatImage sampleRate channels, h.file⟩

theorem Carries.holds (h : w.Carries 0 0 (formatImage sampleRate channels) samples) :
    w.Holds sampleRate channels samples :=
  ⟨h.riffSizePosition_eq, h.dataSizePosition_eq, h.dataWritten_eq, h.file⟩

/-- The header goes out with zeros in its size fields, and remembers where they are. -/
theorem holds_writeHeader (sampleRate : Nat) {channels : Nat} (hchannels : channels < 32768) :
    writeHeader { empty with
      format := .pcm (UInt32.ofNat sampleRate) (UInt16.ofNat channels) sampleWidth }
      |>.Holds sampleRate channels [] := by
  have hheader := carries_writeHeader (w := { empty with
    format := .pcm (UInt32.ofNat sampleRate) (UInt16.ofNat channels) sampleWidth }) rfl
      (Nat.zero_le 4) rfl
  rw [FormatChunk.bytes_pcm sampleRate hchannels] at hheader
  exact hheader.holds

theorem Holds.writeSamples (h : w.Holds sampleRate channels samples) (more : List Int16) :
    (w.writeSamples more).Holds sampleRate channels (samples ++ more) :=
  (h.carries.writeSamples more).holds

/-- What the sizes make of a file that has its samples. -/
theorem Holds.finish (h : w.Holds sampleRate channels samples)
    (hsize : 36 + 2 * samples.length < Chunk.lengthLimit) : ∃ w', w.finish = .ok w' ∧
      w'.close = (waveImage (36 + 2 * samples.length) (2 * samples.length) sampleRate channels
        samples).toArray := by
  obtain ⟨w', hfinish, hw', -⟩ := h.carries.finish hsize
  exact ⟨w', hfinish, hw'.file.close_eq⟩

end WaveWriter

/-! ## Audio files -/

namespace AudioFile

/-- The file was created with some parameters, and the samples were written to it. -/
def Holds (sampleRate channels : Nat) (samples : List Int16) : AudioFile → Prop
  | .wave w => w.Holds sampleRate channels samples
  | .bare f => f.Holds (Wire.bytes .littleEndian samples)

/-- The format of an open file. -/
def format : AudioFile → AudioFormat
  | .wave _ => .wave
  | .bare _ => .bare

variable {a : AudioFile} {sampleRate channels : Nat} {samples : List Int16}

theorem exists_create (format : AudioFormat) (sampleRate : Nat) {channels : Nat}
    (hchannels : channels < 32768) :
    ∃ a, create format (UInt32.ofNat sampleRate) (UInt16.ofNat channels) = .ok a ∧
      a.format = format ∧ a.Holds sampleRate channels [] := by
  rcases format with _ | _
  · exact ⟨_, rfl, rfl, WaveWriter.holds_writeHeader sampleRate hchannels⟩
  · exact ⟨_, rfl, rfl, OpenFile.holds_empty⟩

theorem Holds.writeSamples (h : a.Holds sampleRate channels samples) (more : List Int16) :
    (a.writeSamples more).Holds sampleRate channels (samples ++ more) := by
  rcases a with w | f
  · exact WaveWriter.Holds.writeSamples h more
  · exact OpenFile.Holds.foldl_write h more

@[simp] theorem format_writeSamples (a : AudioFile) (samples : List Int16) :
    (a.writeSamples samples).format = a.format := by
  rcases a with _ | _ <;> rfl

/-- **A file that is left before it is finished** has its samples, and no sizes. -/
theorem Holds.close_eq (h : a.Holds sampleRate channels samples) :
    a.close.toList = a.format.image false sampleRate channels samples := by
  rcases a with w | f
  · exact congrArg Array.toList (WaveWriter.Holds.file h).close_eq
  · exact congrArg Array.toList (OpenFile.Holds.close_eq h)

/-- **A file that is finished** is the image of its samples. -/
theorem Holds.exists_finish (h : a.Holds sampleRate channels samples)
    (hsize : a.format = .wave → 36 + 2 * samples.length < Chunk.lengthLimit) :
    ∃ a', a.finish = .ok a' ∧
      a'.close.toList = a.format.image true sampleRate channels samples := by
  rcases a with w | f
  · obtain ⟨w', hfinish, hclose⟩ := WaveWriter.Holds.finish h (hsize rfl)
    exact ⟨.wave w', by rw [finish, hfinish]; rfl, congrArg Array.toList hclose⟩
  · exact ⟨.bare f.flush, rfl, congrArg Array.toList (OpenFile.Holds.flush h).close_eq⟩

end AudioFile

end LosslessAudio
