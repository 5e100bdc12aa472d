import LosslessAudio.Proofs.WaveEditing
import Mathlib.Data.List.Induction

/-!
# When the parameters of a WAVE file are settled

A writer takes parameters as long as it has no samples.  The parameters are in the file from the
header on, however, so there is a time, between the header and the first sample, at which new
parameters are accepted and yet do not get into the file.

`WaveCall` is anything that is asked of a writer; a call that is refused changes nothing.

* `WaveWriter.format_run` — a writer remembers the parameters it accepted last, whatever it is
  asked.
* `WaveWriter.Blank` is what holds before the header, `WaveWriter.Carries` what holds from then on.
* `WaveWriter.format_of_calls` says which parameters the file has, and which calls are refused.
-/

set_option autoImplicit false

namespace LosslessAudio

/-- What is asked of a writer of WAVE files. -/
inductive WaveCall where
  | configure (sampleRate : UInt32) (channels : UInt16)
  | header
  | edit (e : Edit)
  deriving DecidableEq, Repr

/-- The samples that a call writes. -/
def WaveCall.added : WaveCall → List Int16
  | .configure _ _ | .header => []
  | .edit e => e.added

/-- All samples that some calls write, in order. -/
def writtenSamples (calls : List WaveCall) : List Int16 :=
  calls.flatMap WaveCall.added

@[simp] theorem writtenSamples_nil : writtenSamples [] = [] := rfl

@[simp] theorem writtenSamples_cons (c : WaveCall) (calls : List WaveCall) :
    writtenSamples (c :: calls) = c.added ++ writtenSamples calls :=
  List.flatMap_cons

/-- The sample rate and the number of channels of a file that is told nothing else. -/
def standardParameters : UInt32 × UInt16 :=
  (44100, 2)

/-- The bytes of the format chunk with a sample rate and a number of channels. -/
def formatBytes (parameters : UInt32 × UInt16) : Bytes :=
  (FormatChunk.pcm parameters.1 parameters.2 16).toChunk.bytes

/-- No two parameters have the same format chunk. -/
theorem formatBytes_injective : Function.Injective formatBytes := by
  intro p q h
  -- the number of channels stands at place 10 of the chunk, and the sample rate behind it
  have hchannels := congrArg (fun bytes => Wire.toNat ((bytes.drop 10).take 2)) h
  have hrate := congrArg (fun bytes => Wire.toNat ((bytes.drop 12).take 4)) h
  simp only [formatBytes, FormatChunk.bytes_toChunk] at hchannels hrate
  replace hchannels : Wire.toNat (Wire.littleEndian 2 p.2.toNat) =
    Wire.toNat (Wire.littleEndian 2 q.2.toNat) := hchannels
  replace hrate : Wire.toNat (Wire.littleEndian 4 p.1.toNat) =
    Wire.toNat (Wire.littleEndian 4 q.1.toNat) := hrate
  rw [Wire.toNat_littleEndian, Wire.toNat_littleEndian] at hchannels hrate
  refine Prod.ext (UInt32.toNat_inj.1 ?_) (UInt16.toNat_inj.1 ?_)
  · rwa [Nat.mod_eq_of_lt p.1.toNat_lt, Nat.mod_eq_of_lt q.1.toNat_lt] at hrate
  · rwa [Nat.mod_eq_of_lt p.2.toNat_lt, Nat.mod_eq_of_lt q.2.toNat_lt] at hchannels

namespace WaveWriter

/-- Answers a call. -/
def call (w : WaveWriter) : WaveCall → Except FileFault WaveWriter
  | .configure sampleRate channels => w.configure sampleRate channels
  | .header => .ok w.writeHeader
  | .edit e => w.edit e

/-- The writer behind a call, which is as before if the call is refused. -/
def next (w : WaveWriter) (c : WaveCall) : WaveWriter :=
  match w.call c with
  | .ok w' => w'
  | .error _ => w

/-- The writer behind some calls. -/
def run (w : WaveWriter) (calls : List WaveCall) : WaveWriter :=
  calls.foldl next w

/-- The parameters that a call brings, if it is accepted. -/
def taken (w : WaveWriter) : WaveCall → Option (UInt32 × UInt16)
  | .configure sampleRate channels =>
    match w.configure sampleRate channels with
    | .ok _ => some (sampleRate, channels)
    | .error _ => none
  | .header | .edit _ => none

/-- The parameters of all calls that are accepted, in order. -/
def accepted : WaveWriter → List WaveCall → List (UInt32 × UInt16)
  | _, [] => []
  | w, c :: calls => (w.taken c).toList ++ (w.next c).accepted calls

/-- The parameters that a new writer accepts last in the course of some calls. -/
def lastAccepted (calls : List WaveCall) : UInt32 × UInt16 :=
  (empty.accepted calls).getLast?.getD standardParameters

variable {w : WaveWriter} {calls more : List WaveCall}

@[simp] theorem run_nil : w.run [] = w := rfl

@[simp] theorem run_cons (c : WaveCall) : w.run (c :: calls) = (w.next c).run calls := rfl

@[simp] theorem run_append : w.run (calls ++ more) = (w.run calls).run more :=
  List.foldl_append

theorem accepted_append :
    w.accepted (calls ++ more) = w.accepted calls ++ (w.run calls).accepted more := by
  induction calls generalizing w with
  | nil => rfl
  | cons c calls ih => simp [accepted, ih]

/-! ## One call -/

/-- Parameters are accepted as long as there are no samples. -/
theorem configure_eq (w : WaveWriter) (sampleRate : UInt32) (channels : UInt16) :
    w.configure sampleRate channels =
      if w.dataWritten = 0 then .ok { w with format := .pcm sampleRate channels 16 }
      else .error .formatLocked := by
  rw [configure, ensure]
  split <;> rfl

theorem next_configure (w : WaveWriter) (sampleRate : UInt32) (channels : UInt16) :
    w.next (.configure sampleRate channels) =
      { w with format := if w.dataWritten = 0 then .pcm sampleRate channels 16 else w.format } := by
  simp only [next, call, configure_eq]
  by_cases hwritten : w.dataWritten = 0 <;> simp [hwritten]

/-- The file with its sizes put in. -/
def finished (w : WaveWriter) : OpenFile :=
  let w' := (w.patch w.dataSizePosition w.dataWritten).patch w.riffSizePosition
    (w.dataWritten + headerLength - uncounted)
  (w'.file.seek w.file.endPosition).flush

/-- Finishing touches nothing but the file, and not even that if there are too many samples. -/
theorem next_finish (w : WaveWriter) : w.next (.edit .finish) =
    { w with
      file := if w.dataWritten + headerLength - uncounted < Chunk.lengthLimit then w.finished
        else w.file } := by
  have hcall : w.call (.edit .finish) = w.finish := rfl
  have hfinish : w.finish =
      if w.dataWritten + headerLength - uncounted < Chunk.lengthLimit then
        .ok { w with file := w.finished }
      else .error .dataTooLarge := by
    rw [finish, ensure]
    split <;> rfl
  rw [next, hcall, hfinish]
  by_cases hsize : w.dataWritten + headerLength - uncounted < Chunk.lengthLimit
  · simp only [if_pos hsize]
  · simp only [if_neg hsize]

theorem dataWritten_next (w : WaveWriter) (c : WaveCall) :
    (w.next c).dataWritten = w.dataWritten + 2 * c.added.length := by
  rcases c with ⟨sampleRate, channels⟩ | _ | block | _
  · rw [next_configure]
    rfl
  · rfl
  · exact congrArg (w.dataWritten + ·) (Wire.length_bytes_samples block)
  · rw [next_finish]
    rfl

/-- A writer has the parameters that it accepted, or else the ones it had. -/
theorem format_next (w : WaveWriter) (c : WaveCall) :
    (w.next c).format = ((w.taken c).map fun p => .pcm p.1 p.2 16).getD w.format := by
  rcases c with ⟨sampleRate, channels⟩ | _ | block | _
  · rw [next_configure, taken, configure_eq]
    by_cases hwritten : w.dataWritten = 0 <;> simp [hwritten]
  · simp [next, call, writeHeader, put, taken]
  · simp [next, call, edit, writeSamples, put, taken]
  · rw [next_finish, taken, Option.map_none, Option.getD_none]

/-! ## Many calls -/

/-- What a writer has counted are the samples that were written. -/
theorem dataWritten_run (calls : List WaveCall) :
    (w.run calls).dataWritten = w.dataWritten + 2 * (writtenSamples calls).length := by
  induction calls generalizing w with
  | nil => rfl
  | cons c calls ih =>
    rw [run_cons, ih, dataWritten_next, writtenSamples_cons, List.length_append]
    omega

/-- **A new writer has the parameters that it accepted last**, whatever it is asked. -/
theorem format_run (calls : List WaveCall) : (empty.run calls).format =
    .pcm (lastAccepted calls).1 (lastAccepted calls).2 16 := by
  induction calls using List.reverseRecOn with
  | nil => rfl
  | append_singleton calls c ih =>
    have hlast : (empty.run calls).accepted [c] = ((empty.run calls).taken c).toList := by
      simp [accepted]
    rw [run_append, run_cons, run_nil, format_next, lastAccepted, accepted_append, hlast]
    cases (empty.run calls).taken c with
    | none =>
      rw [Option.toList_none, List.append_nil]
      exact ih
    | some p => simp

/-- A new writer accepts parameters exactly as long as no sample was written. -/
theorem configure_run (calls : List WaveCall) (sampleRate : UInt32) (channels : UInt16) :
    (empty.run calls).configure sampleRate channels =
      if writtenSamples calls = [] then
        .ok { empty.run calls with format := .pcm sampleRate channels 16 }
      else .error .formatLocked := by
  have hwritten : (empty.run calls).dataWritten = 0 ↔ writtenSamples calls = [] := by
    have hempty : empty.dataWritten = 0 := rfl
    rw [dataWritten_run, hempty, ← List.length_eq_zero_iff]
    omega
  rw [configure_eq]
  simp only [hwritten]

/-! ## Before the header -/

/-- Nothing is in the file but, if it was finished, the two sizes, which both went to its front. -/
structure Blank (w : WaveWriter) : Prop where
  endPosition_eq : w.file.endPosition = 0
  size_le : w.file.close.size ≤ 4
  riffSizePosition_eq : w.riffSizePosition = 0
  dataSizePosition_eq : w.dataSizePosition = 0
  dataWritten_eq : w.dataWritten = 0

theorem blank_empty : empty.Blank :=
  ⟨rfl, Nat.zero_le 4, rfl, rfl, rfl⟩

/-- Finishing a file without a header writes four bytes to its front, twice. -/
theorem Blank.size_finished (h : w.Blank) : w.finished.close.size ≤ 4 := by
  have hfour (n : Nat) : (Wire.littleEndian 4 n).toArray.size = 4 := by simp
  have hnonzero (n : Nat) : (Wire.littleEndian 4 n).toArray.size ≠ 0 := by simp
  have hsize := h.size_le
  simp only [finished, patch, OpenFile.close_flush, OpenFile.close_seek, OpenFile.close_write,
    OpenFile.endPosition_seek, h.riffSizePosition_eq, h.dataSizePosition_eq]
  rw [OpenFile.size_overwrite _ _ (hnonzero _), OpenFile.size_overwrite _ _ (hnonzero _), hfour,
    hfour]
  omega

theorem Blank.next (h : w.Blank) {c : WaveCall} (hheader : c ≠ .header) (hadded : c.added = []) :
    (w.next c).Blank := by
  rcases c with ⟨sampleRate, channels⟩ | _ | block | _
  · rw [next_configure]
    exact ⟨h.endPosition_eq, h.size_le, h.riffSizePosition_eq, h.dataSizePosition_eq,
      h.dataWritten_eq⟩
  · exact absurd rfl hheader
  · have hblock : block = [] := hadded
    subst hblock
    refine ⟨?_, ?_, h.riffSizePosition_eq, h.dataSizePosition_eq, h.dataWritten_eq⟩
    · exact (OpenFile.endPosition_write ..).trans h.endPosition_eq
    · have hclose : (w.file.write #[]).close = w.file.close := OpenFile.close_write ..
      exact Nat.le_trans (Nat.le_of_eq (congrArg Array.size hclose)) h.size_le
  · rw [next_finish]
    refine ⟨?_, ?_, h.riffSizePosition_eq, h.dataSizePosition_eq, h.dataWritten_eq⟩
    · dsimp only
      split
      · exact h.endPosition_eq
      · exact h.endPosition_eq
    · dsimp only
      split
      · exact h.size_finished
      · exact h.size_le

theorem Blank.run (h : w.Blank) (hheader : .header ∉ calls) (hsamples : writtenSamples calls = []) :
    (w.run calls).Blank := by
  induction calls generalizing w with
  | nil => exact h
  | cons c calls ih =>
    rw [writtenSamples_cons, List.append_eq_nil_iff] at hsamples
    rw [List.mem_cons, not_or] at hheader
    exact ih (h.next (Ne.symm hheader.1) hsamples.1) hheader.2 hsamples.2

/-! ## From the header on -/

/-- The header is in the file, with a format chunk that no call changes any more. -/
theorem Carries.next {riffSize dataSize : Nat} {format : Bytes} {samples : List Int16}
    (h : w.Carries riffSize dataSize format samples) {c : WaveCall} (hheader : c ≠ .header) :
    ∃ riffSize' dataSize',
      (w.next c).Carries riffSize' dataSize' format (samples ++ c.added) := by
  rcases c with ⟨sampleRate, channels⟩ | _ | block | _
  · refine ⟨riffSize, dataSize, ?_⟩
    rw [next_configure, WaveCall.added, List.append_nil]
    exact ⟨h.riffSizePosition_eq, h.dataSizePosition_eq, h.dataWritten_eq, h.length_format, h.file⟩
  · exact absurd rfl hheader
  · exact ⟨riffSize, dataSize, h.writeSamples block⟩
  · have hadded : (WaveCall.edit .finish).added = [] := rfl
    rw [hadded, List.append_nil]
    by_cases hsize : 36 + 2 * samples.length < Chunk.lengthLimit
    · obtain ⟨w', hfinish, hw', -⟩ := h.finish hsize
      have hcall : w.call (.edit .finish) = w.finish := rfl
      rw [WaveWriter.next, hcall, hfinish]
      exact ⟨_, _, hw'⟩
    · -- too many samples, and the file is left as it is
      have hriff : w.dataWritten + headerLength - uncounted = 36 + 2 * samples.length := by
        rw [h.dataWritten_eq, headerLength, uncounted]
        omega
      rw [next_finish, hriff, if_neg hsize]
      exact ⟨riffSize, dataSize, h⟩

theorem Carries.run {riffSize dataSize : Nat} {format : Bytes} {samples : List Int16}
    (h : w.Carries riffSize dataSize format samples) (hheader : .header ∉ calls) :
    ∃ riffSize' dataSize',
      (w.run calls).Carries riffSize' dataSize' format (samples ++ writtenSamples calls) := by
  induction calls generalizing w riffSize dataSize samples with
  | nil => exact ⟨riffSize, dataSize, by simpa using h⟩
  | cons c calls ih =>
    rw [List.mem_cons, not_or] at hheader
    obtain ⟨riffSize₁, dataSize₁, h₁⟩ := h.next (Ne.symm hheader.1)
    rw [writtenSamples_cons, ← List.append_assoc]
    exact ih h₁ hheader.2

/-- The file behind the header, whatever is asked before and after. -/
theorem carries_run {before after : List WaveCall} (hbefore : .header ∉ before)
    (hafter : .header ∉ after) (hsamples : writtenSamples before = []) :
    ∃ riffSize dataSize, (empty.run (before ++ .header :: after)).Carries riffSize dataSize
      (formatBytes (lastAccepted before)) (writtenSamples after) := by
  have hblank := blank_empty.run hbefore hsamples
  have hheader := carries_writeHeader hblank.endPosition_eq hblank.size_le hblank.dataWritten_eq
  rw [format_run] at hheader
  have hrun : empty.run (before ++ .header :: after) =
      (empty.run before).writeHeader.run after := by
    rw [run_append, run_cons]
    rfl
  rw [hrun]
  exact hheader.run hafter

/-! ## What comes too late -/

/-- But for the header, no call makes anything of the parameters. -/
theorem next_with_format (w : WaveWriter) (f : FormatChunk) {c : WaveCall} (hheader : c ≠ .header) :
    ∃ f', { w with format := f }.next c = { w.next c with format := f' } := by
  rcases c with ⟨sampleRate, channels⟩ | _ | block | _
  · rw [next_configure, next_configure]
    exact ⟨_, rfl⟩
  · exact absurd rfl hheader
  · exact ⟨f, rfl⟩
  · rw [next_finish, next_finish]
    exact ⟨f, rfl⟩

theorem run_with_format (w : WaveWriter) (f : FormatChunk) (hheader : .header ∉ calls) :
    ∃ f', { w with format := f }.run calls = { w.run calls with format := f' } := by
  induction calls generalizing w f with
  | nil => exact ⟨f, rfl⟩
  | cons c calls ih =>
    rw [List.mem_cons, not_or] at hheader
    obtain ⟨f₁, hnext⟩ := w.next_with_format f (Ne.symm hheader.1)
    rw [run_cons, hnext]
    exact ih _ f₁ hheader.2

/-- Parameters that come behind the header do not get into the file, accepted or not. -/
theorem close_run_configure (sampleRate : UInt32) (channels : UInt16) (hheader : .header ∉ more) :
    (w.run (calls ++ .configure sampleRate channels :: more)).close =
      (w.run (calls ++ more)).close := by
  obtain ⟨f, hrun⟩ := (w.run calls).run_with_format
    (if (w.run calls).dataWritten = 0 then .pcm sampleRate channels 16 else (w.run calls).format)
    hheader
  rw [run_append, run_append, run_cons, next_configure, hrun]
  rfl

/-- **The parameters of a WAVE file are those its writer had at the header.**  A file gets its
header once, and no sample before it; apart from that anything is asked of its writer in any order.
Then the format chunk is that of the parameters accepted last before the header.  These are the ones
accepted last of all exactly if none are accepted behind the header, or the same ones again: for
what decides if new parameters are accepted is whether a sample was written.  Parameters that are
refused change nothing, and those that come behind the header do not change the file. -/
theorem format_of_calls {before after : List WaveCall} (hbefore : .header ∉ before)
    (hafter : .header ∉ after) (hsamples : writtenSamples before = []) :
    let calls := before ++ .header :: after
    let format := ((empty.run calls).close.toList.drop 12).take 24
    format = formatBytes (lastAccepted before) ∧
    (format = formatBytes (lastAccepted calls) ↔ lastAccepted before = lastAccepted calls) ∧
    ∀ front sampleRate channels back, calls = front ++ .configure sampleRate channels :: back →
      ((empty.run front).configure sampleRate channels =
        if writtenSamples front = [] then
          .ok { empty.run front with format := .pcm sampleRate channels 16 }
        else .error .formatLocked) ∧
      (writtenSamples front ≠ [] →
        empty.run (front ++ [.configure sampleRate channels]) = empty.run front) ∧
      (.header ∈ front → (empty.run calls).close = (empty.run (front ++ back)).close) := by
  intro calls format
  obtain ⟨riffSize, dataSize, hcarries⟩ := carries_run hbefore hafter hsamples
  have hformat : format = formatBytes (lastAccepted before) := by
    have hclose : (empty.run calls).close.toList = waveFile riffSize dataSize
      (formatBytes (lastAccepted before)) (writtenSamples after) :=
        congrArg Array.toList hcarries.file.close_eq
    show ((empty.run calls).close.toList.drop 12).take 24 = _
    rw [hclose]
    exact format_waveFile riffSize dataSize (writtenSamples after) hcarries.length_format
  refine ⟨hformat, ?_, ?_⟩
  · rw [hformat]
    exact formatBytes_injective.eq_iff
  · intro front sampleRate channels back hcalls
    have hanswer := configure_run front sampleRate channels
    refine ⟨hanswer, ?_, ?_⟩
    · intro hwritten
      rw [if_neg hwritten] at hanswer
      rw [run_append, run_cons, run_nil, next, call, hanswer]
    · intro hfront
      -- there is but one header, and it comes before this call
      have hone : calls.count .header = 1 := by
        simp [calls, List.count_eq_zero.2 hbefore, List.count_eq_zero.2 hafter]
      have hback : .header ∉ back := by
        rw [hcalls, List.count_append, List.count_cons] at hone
        have hpos := List.count_pos_iff.2 hfront
        exact List.count_eq_zero.1 (by omega)
      rw [hcalls]
      exact close_run_configure sampleRate channels hback

/-- Parameters before the header, and a file that is finished too early. -/
def earlyCalls : List WaveCall :=
  [.configure 48000 1, .edit .finish]

/-- Parameters before and behind the first sample. -/
def lateCalls : List WaveCall :=
  [.configure 8000 2, .edit (.samples [1, -1]), .configure 22050 1, .edit .finish]

theorem format_of_calls_lateCalls :
    .header ∉ earlyCalls ∧ .header ∉ lateCalls ∧ writtenSamples earlyCalls = [] ∧
      let calls := earlyCalls ++ .header :: lateCalls
      let format := ((empty.run calls).close.toList.drop 12).take 24
      format = formatBytes (48000, 1) ∧ format ≠ formatBytes (8000, 2) ∧
      lastAccepted calls = (8000, 2) := by
  have hbefore : .header ∉ earlyCalls := by decide
  have hafter : .header ∉ lateCalls := by decide
  have hearly : lastAccepted earlyCalls = (48000, 1) := by decide +kernel
  have hlast : lastAccepted (earlyCalls ++ .header :: lateCalls) = (8000, 2) := by decide +kernel
  obtain ⟨hformat, hiff, -⟩ := format_of_calls hbefore hafter rfl
  rw [hearly, hlast] at hiff
  rw [hearly] at hformat
  exact ⟨hbefore, hafter, rfl, hformat, fun h => absurd (hiff.1 h) (by decide), hlast⟩

/-- **Parameters may be accepted and yet not be in the file**: behind the header there is no sample
at first, so they are accepted. -/
theorem format_ne_lastAccepted : ¬ ∀ before after : List WaveCall,
    .header ∉ before → .header ∉ after → writtenSamples before = [] → .edit .finish ∈ after →
    (∀ sampleRate channels, .configure sampleRate channels ∈ before ++ after →
      2 * channels.toNat < 2 ^ 16 ∧ 2 * channels.toNat * sampleRate.toNat < 2 ^ 32) →
    let calls := before ++ .header :: after
    ((empty.run calls).close.toList.drop 12).take 24 = formatBytes (lastAccepted calls) := by
  intro h
  have hfile := h [] [.configure 8000 1, .edit .finish] (by decide) (by decide) rfl (by decide) (by
    intro sampleRate channels hmem
    have hcall : sampleRate = 8000 ∧ channels = 1 := by simpa using hmem
    rw [hcall.1, hcall.2]
    decide)
  revert hfile
  decide +kernel

end WaveWriter

end LosslessAudio
