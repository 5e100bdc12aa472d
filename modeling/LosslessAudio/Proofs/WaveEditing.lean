import LosslessAudio.Proofs.Alignment
import LosslessAudio.Proofs.AudioImage

/-!
# Audio files that are finished more than once

Between its header and its end an audio file takes blocks of samples, and may be finished at any
time: the sizes are then put where they belong, and more samples may follow.  `Edit` is what is done
with such a file.

* `Carries.edit` — every edit keeps a WAVE file with the samples so far, and `Carries.editAll` says
  so of all edits.
* `contents_of_edits` is what this comes to: what the file holds depends on the samples alone, not
  on how they were cut into blocks nor on when the file was finished.
-/

set_option autoImplicit false

namespace LosslessAudio

/-- What is done with an audio file once its header is there. -/
inductive Edit where
  | samples (block : List Int16)
  | finish
  deriving DecidableEq, Repr

/-- The samples that an edit adds. -/
def Edit.added : Edit → List Int16
  | .samples block => block
  | .finish => []

/-- All samples that some edits add, in order. -/
def addedSamples (edits : List Edit) : List Int16 :=
  edits.flatMap Edit.added

@[simp] theorem addedSamples_nil : addedSamples [] = [] := rfl

@[simp] theorem addedSamples_cons (e : Edit) (edits : List Edit) :
    addedSamples (e :: edits) = e.added ++ addedSamples edits :=
  List.flatMap_cons

namespace FormatChunk

/-- Where nothing overflows, the chunk says what a second and a sample of all channels take. -/
theorem toNat_pcm {rate : UInt32} {channels : UInt16} (hchannels : 2 * channels.toNat < 2 ^ 16)
    (hrate : 2 * channels.toNat * rate.toNat < 2 ^ 32) :
    (pcm rate channels 16).blockAlign.toNat = 2 * channels.toNat ∧
      (pcm rate channels 16).byteRate.toNat = 2 * channels.toNat * rate.toNat := by
  have hwidth : ((16 : UInt16) / 8).toNat = 2 := rfl
  have halign : (channels * (16 / 8)).toNat = 2 * channels.toNat := by
    rw [UInt16.toNat_mul, hwidth]
    omega
  refine ⟨halign, ?_⟩
  show (rate * (channels * (16 / 8)).toUInt32).toNat = _
  rw [UInt32.toNat_mul, UInt16.toNat_toUInt32, halign, Nat.mul_comm]
  exact Nat.mod_eq_of_lt hrate

end FormatChunk

section

variable (riffSize dataSize : Nat) {format : Bytes} (samples : List Int16)

/-- The samples begin where the header ends. -/
theorem drop_waveFile (hformat : format.length = 24) :
    (waveFile riffSize dataSize format samples).drop WaveWriter.headerLength =
      Wire.bytes .littleEndian samples := by
  refine List.drop_left' ?_
  simp [Chunk.length_tagOf, hformat, WaveWriter.headerLength]

/-- The format chunk stands behind the tags. -/
theorem format_waveFile (hformat : format.length = 24) :
    ((waveFile riffSize dataSize format samples).drop 12).take 24 = format := by
  have hfront : (Chunk.tagOf "RIFF" ++ Wire.littleEndian 4 riffSize ++
      Chunk.tagOf "WAVE").length = 12 := by
    simp [Chunk.length_tagOf]
  rw [waveFile, List.append_assoc, List.append_assoc, List.append_assoc, List.drop_left' hfront,
    List.take_left' hformat]

end

/-- A file is read back with the sample rate in its format chunk. -/
theorem WaveFormat.outcome_waveFile (riffSize dataSize : Nat) (rate : UInt32) (channels : UInt16)
    (samples : List Int16) :
    (parse (waveFile riffSize dataSize (FormatChunk.pcm rate channels 16).toChunk.bytes
      samples)).outcome = .ok ⟨rate.toNat, 16⟩ := by
  let rest := Chunk.tagOf "data" ++ Wire.littleEndian 4 dataSize ++ Wire.bytes .littleEndian samples
  have hread : (parse (opening (Wire.littleEndian 4 riffSize) ++ ([].flatMap Chunk.bytes ++
      ((FormatChunk.pcm rate channels 16).toChunk.bytes ++ rest)))).outcome =
        .ok ⟨rate.toNat, 16⟩ :=
    outcome_of_even (Wire.length_littleEndian 4 riffSize) nofun nofun
  simpa [waveFile, opening, rest] using hread

/-! ## WAVE files -/

namespace WaveWriter

/-- Carries out an edit. -/
def edit (w : WaveWriter) : Edit → Except FileFault WaveWriter
  | .samples block => .ok (w.writeSamples block)
  | .finish => w.finish

/-- Carries out one edit after the other. -/
def editAll (w : WaveWriter) (edits : List Edit) : Except FileFault WaveWriter :=
  edits.foldlM edit w

variable {w : WaveWriter} {riffSize dataSize : Nat} {format : Bytes} {samples : List Int16}

/-- A writer without contents takes any parameters. -/
theorem exists_configure (rate : UInt32) (channels : UInt16) :
    ∃ w, empty.configure rate channels = .ok w ∧ w.format = .pcm rate channels 16 ∧
      w.file = .empty ∧ w.dataWritten = 0 :=
  ⟨_, rfl, rfl, rfl, rfl⟩

/-- **Every edit keeps the file** in which its samples stand behind the earlier ones, as long as
they all fit. -/
theorem Carries.edit (h : w.Carries riffSize dataSize format samples) (e : Edit)
    (hsize : 36 + 2 * (samples ++ e.added).length < Chunk.lengthLimit) :
    ∃ w' riffSize' dataSize', w.edit e = .ok w' ∧
      w'.Carries riffSize' dataSize' format (samples ++ e.added) := by
  cases e with
  | samples block => exact ⟨_, riffSize, dataSize, rfl, h.writeSamples block⟩
  | finish =>
    rw [Edit.added, List.append_nil] at hsize ⊢
    obtain ⟨w', hfinish, hw', -⟩ := h.finish hsize
    exact ⟨w', _, _, hfinish, hw'⟩

theorem Carries.editAll (h : w.Carries riffSize dataSize format samples) (edits : List Edit)
    (hsize : 36 + 2 * (samples ++ addedSamples edits).length < Chunk.lengthLimit) :
    ∃ w' riffSize' dataSize', w.editAll edits = .ok w' ∧
      w'.Carries riffSize' dataSize' format (samples ++ addedSamples edits) := by
  induction edits generalizing w riffSize dataSize samples with
  | nil => exact ⟨w, riffSize, dataSize, rfl, by simpa using h⟩
  | cons e edits ih =>
    rw [addedSamples_cons, ← List.append_assoc] at hsize ⊢
    -- what is there in between is no longer than what is there in the end
    have hless : 36 + 2 * (samples ++ e.added).length < Chunk.lengthLimit := by
      rw [List.length_append] at hsize
      omega
    obtain ⟨w₁, riffSize₁, dataSize₁, hedit, hw₁⟩ := h.edit e hless
    obtain ⟨w', riffSize', dataSize', hall, hw'⟩ := ih hw₁ hsize
    refine ⟨w', riffSize', dataSize', ?_, hw'⟩
    rw [WaveWriter.editAll, List.foldlM_cons, hedit]
    exact hall

/-- A file that is finished last has the sizes of all its samples. -/
theorem Carries.editAll_finish (h : w.Carries riffSize dataSize format samples)
    (edits : List Edit)
    (hsize : 36 + 2 * (samples ++ addedSamples edits).length < Chunk.lengthLimit) :
    ∃ w', w.editAll (edits ++ [.finish]) = .ok w' ∧ w'.file.contents = w'.close ∧
      w'.Carries (36 + 2 * (samples ++ addedSamples edits).length)
        (2 * (samples ++ addedSamples edits).length) format (samples ++ addedSamples edits) := by
  obtain ⟨w₁, riffSize₁, dataSize₁, hall, hw₁⟩ := h.editAll edits hsize
  obtain ⟨w', hfinish, hw', hcontents⟩ := hw₁.finish hsize
  refine ⟨w', ?_, hcontents, hw'⟩
  rw [WaveWriter.editAll] at hall ⊢
  rw [List.foldlM_append, hall]
  exact (List.foldlM_cons ..).trans (bind_eq_ok.2 ⟨w', hfinish, rfl⟩)

end WaveWriter

/-! ## Audio files -/

namespace AudioFile

/-- Carries out an edit. -/
def edit (a : AudioFile) : Edit → Except FileFault AudioFile
  | .samples block => .ok (a.writeSamples block)
  | .finish => a.finish

/-- Carries out one edit after the other. -/
def editAll (a : AudioFile) (edits : List Edit) : Except FileFault AudioFile :=
  edits.foldlM edit a

/-- A file of bare samples holds the samples that were written to it, finished or not. -/
theorem bare_editAll {f : OpenFile} {samples : List Int16}
    (h : f.Holds (Wire.bytes .littleEndian samples)) (edits : List Edit) :
    ∃ f', (AudioFile.bare f).editAll edits = .ok (.bare f') ∧
      f'.Holds (Wire.bytes .littleEndian (samples ++ addedSamples edits)) := by
  induction edits generalizing f samples with
  | nil => exact ⟨f, rfl, by simpa using h⟩
  | cons e edits ih =>
    rw [addedSamples_cons, ← List.append_assoc]
    cases e with
    | samples block =>
      obtain ⟨f', hall, hf'⟩ := ih (h.foldl_write block)
      exact ⟨f', hall, hf'⟩
    | finish =>
      rw [Edit.added, List.append_nil]
      obtain ⟨f', hall, hf'⟩ := ih h.flush
      exact ⟨f', hall, hf'⟩

end AudioFile

/-- **What is in an audio file that was written in steps.**  However the samples are cut into
blocks, and however often the file is finished in between, no step fails, and the file holds the
header with the sizes of all its samples, the format chunk of its parameters, whose numbers do not
overflow, and the samples.  Read back, it has the sample rate it was written with.  A file of bare
samples that goes through the same steps holds what stands behind the header. -/
theorem contents_of_edits {rate : UInt32} {channels : UInt16}
    (hchannels : 2 * channels.toNat < 2 ^ 16) (hrate : 2 * channels.toNat * rate.toNat < 2 ^ 32)
    {edits : List Edit} (hsize : 2 * (addedSamples edits).length < 2 ^ 32 - 36) :
    let samples := addedSamples edits
    let format := FormatChunk.pcm rate channels 16
    let image :=
      waveFile (2 * samples.length + 36) (2 * samples.length) format.toChunk.bytes samples
    (∃ w w', WaveWriter.empty.configure rate channels = .ok w ∧
      w.writeHeader.editAll (edits ++ [.finish]) = .ok w' ∧
      w'.file.contents.toList = image ∧ w'.close.toList = image) ∧
    (format.toChunk.bytes = formatImage rate.toNat channels.toNat ∧
      format.blockAlign.toNat = 2 * channels.toNat ∧
      format.byteRate.toNat = 2 * channels.toNat * rate.toNat) ∧
    (WaveFormat.parse image).outcome = .ok ⟨rate.toNat, 16⟩ ∧
    ∃ a a', AudioFile.create .bare rate channels = .ok a ∧
      a.editAll (edits ++ [.finish]) = .ok a' ∧
      a'.file.contents.toList = image.drop 44 ∧ a'.close.toList = image.drop 44 := by
  intro samples format image
  have hlimit : Chunk.lengthLimit = 2 ^ 32 := rfl
  have hformat : format.toChunk.bytes.length = 24 := format.length_bytes_toChunk
  have hsamples : image.drop 44 = Wire.bytes .littleEndian samples := drop_waveFile _ _ _ hformat
  have hfields : format.toChunk.bytes = formatImage rate.toNat channels.toNat := by
    have hless : channels.toNat < 32768 := by omega
    have hbytes := FormatChunk.bytes_pcm rate.toNat hless
    rwa [UInt32.ofNat_toNat, UInt16.ofNat_toNat] at hbytes
  have hnumbers := FormatChunk.toNat_pcm hchannels hrate
  refine ⟨?_, ⟨hfields, hnumbers⟩, WaveFormat.outcome_waveFile _ _ rate channels samples, ?_⟩
  · obtain ⟨w₀, hconfigure, hformat₀, hfile₀, hwritten₀⟩ :=
      WaveWriter.exists_configure rate channels
    have hheader := WaveWriter.carries_writeHeader (w := w₀) (by rw [hfile₀]; rfl)
      (by rw [hfile₀]; exact Nat.zero_le 4) hwritten₀
    obtain ⟨w', hall, hcontents, hw'⟩ := hheader.editAll_finish edits (by
      rw [List.nil_append]
      omega)
    rw [List.nil_append, hformat₀] at hw'
    have hclose : w'.close.toList = image := by
      rw [WaveWriter.close, hw'.file.close_eq, Nat.add_comm 36]
    exact ⟨w₀, w', hconfigure, hall, hcontents ▸ hclose, hclose⟩
  · have hempty : OpenFile.empty.Holds (Wire.bytes .littleEndian ([] : List Int16)) :=
      OpenFile.holds_empty
    obtain ⟨f, hall, hf⟩ := AudioFile.bare_editAll hempty edits
    rw [List.nil_append] at hf
    have hclose : f.flush.close.toList = image.drop 44 := by
      rw [hf.flush.close_eq, hsamples]
    refine ⟨.bare .empty, .bare f.flush, rfl, ?_, hclose, hclose⟩
    rw [AudioFile.editAll] at hall ⊢
    rw [List.foldlM_append, hall]
    rfl

/-- Four samples in three blocks, one of them empty; the file is finished behind the first one. -/
def twiceFinished : List Edit :=
  [.samples [1, -1], .finish, .samples [], .samples [32767, -32768]]

theorem contents_of_edits_twiceFinished :
    2 * (2 : UInt16).toNat < 2 ^ 16 ∧ 2 * (2 : UInt16).toNat * (44100 : UInt32).toNat < 2 ^ 32 ∧
      2 * (addedSamples twiceFinished).length < 2 ^ 32 - 36 ∧
      let image := waveFile 44 8 (FormatChunk.pcm 44100 2 16).toChunk.bytes [1, -1, 32767, -32768]
      (∃ w w', WaveWriter.empty.configure 44100 2 = .ok w ∧
        w.writeHeader.editAll (twiceFinished ++ [.finish]) = .ok w' ∧
        w'.file.contents.toList = image ∧ w'.close.toList = image) ∧
      (WaveFormat.parse image).outcome = .ok ⟨44100, 16⟩ ∧
      ∃ a a', AudioFile.create .bare 44100 2 = .ok a ∧
        a.editAll (twiceFinished ++ [.finish]) = .ok a' ∧
        a'.file.contents.toList = image.drop 44 ∧ a'.close.toList = image.drop 44 := by
  have hchannels : 2 * (2 : UInt16).toNat < 2 ^ 16 := by decide
  have hrate : 2 * (2 : UInt16).toNat * (44100 : UInt32).toNat < 2 ^ 32 := by decide
  have hsize : 2 * (addedSamples twiceFinished).length < 2 ^ 32 - 36 := by decide
  obtain ⟨hwave, -, hread, hbare⟩ := contents_of_edits hchannels hrate hsize
  exact ⟨hchannels, hrate, hsize, hwave, hread, hbare⟩

end LosslessAudio
