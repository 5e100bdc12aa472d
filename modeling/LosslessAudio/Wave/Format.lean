import LosslessAudio.Fault
import LosslessAudio.Wave.Chunk

/-!
# The WAVE header a stream carries

A stream opens with the header of the WAVE file it was made from.  Only its `fmt ` chunk is looked
at: the chunks before it are passed over by their stated lengths, whatever they hold, and nothing
behind it is read.  All numbers are little-endian.

`WaveFormat.parse` reads the sample rate and insists on 16-bit linear PCM.  A byte that should be
there and is not always counts as a missing format chunk.
-/

set_option autoImplicit false

namespace LosslessAudio

/-- The parameters of the samples, as the WAVE header gives them. -/
structure WaveFormat where
  sampleRate : Nat
  bitsPerSample : Nat
  deriving DecidableEq, Repr

namespace WaveFormat

/-- The shortest body a format chunk may have. -/
def minimalChunkLength : Nat := 16

/-- The only accepted width of a sample. -/
def sampleWidth : Nat := 16

/-- Splits off the first `n` bytes. -/
def take? (n : Nat) (bytes : Bytes) : Except WaveFault (Bytes × Bytes) := do
  ensure (n ≤ bytes.length) .missingFormatChunk
  return bytes.splitAt n

/-- Reads a number of `n` bytes. -/
def number? (n : Nat) (bytes : Bytes) : Except WaveFault (Nat × Bytes) := do
  let (field, rest) ← take? n bytes
  return (Wire.toNat field, rest)

theorem length_of_take? {n : Nat} {bytes field rest : Bytes}
    (h : take? n bytes = .ok (field, rest)) : bytes.length = n + rest.length := by
  obtain ⟨_, hn, h⟩ := bind_eq_ok.1 h
  have hn := ensure_eq_ok.1 hn
  rw [List.splitAt_eq] at h
  cases h
  rw [List.length_drop]
  omega

/-- The debug line for a chunk that is passed over. -/
def skippedChunkMessage (name : Bytes) (length : Nat) : String :=
  let shown := ", ".intercalate (name.map fun b ↦ toString b.toNat)
  s!"Skipping {length} byte sub-chunk [{shown}]"

/-- Looks for the format chunk among the chunks in `bytes`; the answer is its stated length and
everything behind its head. -/
def findChunk (bytes : Bytes) : Logged (Except WaveFault (Nat × Bytes)) :=
  match h : take? 8 bytes with
  | .error e => pure (.error e)
  | .ok (head, rest) => do
    let name := head.take 4
    let length := Wire.toNat (head.drop 4)
    if name = Chunk.tagOf "fmt " then
      return .ok (length, rest)
    else
      have _shorter := length_of_take? h
      Logged.note .debug .wave (skippedChunkMessage name length)
      findChunk (rest.drop length)
termination_by bytes.length
decreasing_by
  simp only [List.length_drop]
  omega

theorem findChunk_of_error {bytes : Bytes} {e : WaveFault} (h : take? 8 bytes = .error e) :
    findChunk bytes = pure (.error e) := by
  rw [findChunk]
  split
  · rename_i h'
    rw [h] at h'
    cases h'
    rfl
  · rename_i h'
    rw [h] at h'
    cases h'

theorem findChunk_of_ok {bytes head rest : Bytes} (h : take? 8 bytes = .ok (head, rest)) :
    findChunk bytes =
      if head.take 4 = Chunk.tagOf "fmt " then pure (.ok (Wire.toNat (head.drop 4), rest))
      else
        Logged.note .debug .wave (skippedChunkMessage (head.take 4) (Wire.toNat (head.drop 4))) >>=
          fun _ => findChunk (rest.drop (Wire.toNat (head.drop 4))) := by
  rw [findChunk]
  split
  · rename_i h'
    rw [h] at h'
    cases h'
  · rename_i h'
    rw [h] at h'
    cases h'
    rfl

/-- Reads the body of a format chunk. -/
def readBody (length : Nat) (bytes : Bytes) : Except WaveFault WaveFormat := do
  ensure (minimalChunkLength ≤ length) (.formatChunkTooShort length)
  let (format, rest) ← number? 2 bytes
  ensure (format = FormatChunk.pcmTag.toNat) (.unsupportedFormat format)
  -- the number of channels is known from the stream header
  let (sampleRate, rest) ← number? 4 (rest.drop 2)
  -- neither the byte rate nor the block alignment matters
  let (bitsPerSample, _) ← number? 2 (rest.drop 6)
  ensure (bitsPerSample = sampleWidth) (.unsupportedSampleWidth bitsPerSample)
  return ⟨sampleRate, bitsPerSample⟩

/-- Checks the two tags every WAVE file starts with; the answer is what follows them. -/
def readTags (bytes : Bytes) : Except WaveFault Bytes := do
  let (riff, rest) ← take? 4 bytes
  ensure (riff = Chunk.tagOf "RIFF") .missingRiffTag
  -- the size of the file does not matter
  let (wave, rest) ← take? 4 (rest.drop 4)
  ensure (wave = Chunk.tagOf "WAVE") .missingWaveTag
  return rest

/-- Reads a WAVE header. -/
def parse (bytes : Bytes) : Checked WaveFormat := do
  let chunks ← liftFault (readTags bytes)
  let (length, body) ← liftFault (← findChunk chunks)
  let format ← liftFault (readBody length body)
  if minimalChunkLength < length then
    Checked.note .info .wave s!"{length - minimalChunkLength} header bytes unparsed"
  return format
where
  /-- A fault of the WAVE header as a fault of the stream. -/
  liftFault {α : Type} : Except WaveFault α → Checked α
    | .ok a => pure a
    | .error e => throw (.wave e)

end WaveFormat

end LosslessAudio
