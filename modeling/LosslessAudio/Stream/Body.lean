import LosslessAudio.Frame
import LosslessAudio.Predictor
import LosslessAudio.Stream.Header
import LosslessAudio.Stream.Round

/-!
# The body of a stream

`Stream` is the state that commands act on once the header is read.  `Stream.execute` carries out
one command, and `Stream.runCommands` one *pass*: it carries out commands until one of them ends
the pass, or the bits run out.

A command either completes and hands on a new state, or it leaves no trace but its log records: on
input that is still growing a command that ran out of bits is put off, and the pass ends before it.
On input that is complete, running out of bits is a fault, except between two commands, where it
means that the stream ended without a quit command.
-/

set_option autoImplicit false

namespace LosslessAudio

/-- The state of a stream whose header was read. -/
structure Stream where
  info : StreamInfo
  /-- The length of the next block, which the header's block size bounds. -/
  blockSize : Nat
  /-- How many low bits were removed from the samples before compression. -/
  bitshift : Nat
  round : Round
  deriving DecidableEq, Repr

/-- What a command that was carried out brings about. -/
inductive Command.Effect where
  /-- Nothing that ends the pass. -/
  | silent
  /-- The pass ends, and the stream goes on. -/
  | pause
  /-- The last channel of a round got its block. -/
  | frame (frame : Frame)
  /-- The stream ends. -/
  | quit
  deriving DecidableEq, Repr

namespace Stream

/-- The Rice parameter of the Rice parameter of residuals. -/
def residualParameter : Nat := 3

/-- The Rice parameter of bitshifts. -/
def bitshiftParameter : Nat := 2

/-- The largest bitshift that is accepted. -/
def maxBitshift : Nat := 31

/-- Reserves the histories of all channels, and gives the state before the first command. -/
def start [Memory] (info : StreamInfo) : Except Fault Stream := do
  let h ← ChannelHistory.create info.contextLength info.blockSize info.meanCount
    info.sampleType.initialMean
  return { info, blockSize := info.blockSize, bitshift := 0, round := .start info.channels h }

/-! ## Audio commands -/

/-- The Rice parameter of the residuals of a block.  Version 0 transmits it one too high.  The
difference wraps around, as in a program that is built without overflow checks; one that has them
breaks down where version 0 transmits 2^31, which takes a code of 2^28 zeros and more. -/
def readResidualParameter (version : UInt8) (r : BitReader) :
    Except ReadFault (Int32 × BitReader) := do
  let (parameter, r) ← r.rice residualParameter
  return (if version = 0 then parameter.toInt32 - 1 else parameter.toInt32, r)

/-- Reads the block that an audio command carries into the history of its channel. -/
def readBlock (s : Stream) (c : Command) (h : ChannelHistory) (r : BitReader) :
    Except Fault (ChannelHistory × BitReader) :=
  if c = .zero then .ok (h.withBlock (List.replicate s.blockSize 0), r)
  else do
    let (parameter, r) ← readResidualParameter s.info.version r
    let (predictor, r) ← Predictor.read c s.info.contextLength r
    let offset := h.offset s.info.version s.info.meanCount s.bitshift
    predictor.decodeBlock h s.blockSize parameter offset s.info.predictionBias r

/-- What becomes of a channel's history once its block is there. -/
def settleBlock (s : Stream) (h : ChannelHistory) : ChannelHistory :=
  let h := h.pushMean s.info.version s.info.meanCount s.blockSize s.bitshift
  (h.carryOver s.blockSize).shiftBlock s.blockSize s.bitshift

/-- What the block of the current channel brings about: a frame, if it is the last channel. -/
def blockEffect [Memory] (s : Stream) (round : Round) : Except Fault Command.Effect :=
  if s.round.isLast then (Frame.interleave round.channels s.blockSize).map .frame
  else .ok .silent

/-- Carries out an audio command for the current channel. -/
def decodeChannel [Memory] (s : Stream) (c : Command) (r : BitReader) :
    Except Fault (Command.Effect × Stream × BitReader) := do
  let (h, r) ← s.readBlock c s.round.current r
  let round := s.round.next (s.settleBlock h)
  let effect ← s.blockEffect round
  return (effect, { s with round }, r)

/-! ## Other commands -/

/-- Passes over a verbatim block; the answer is its length. -/
def skipVerbatim (r : BitReader) : Except ReadFault (Nat × BitReader) := do
  let (length, r) ← r.rice StreamInfo.verbatimLengthParameter
  let (_, r) ← r.riceMany StreamInfo.verbatimByteParameter length.toNat
  return (length.toNat, r)

/-- Reads a new bitshift. -/
def readBitshift (r : BitReader) : Except Fault (Nat × BitReader) := do
  let (bitshift, r) ← r.rice bitshiftParameter
  ensure (bitshift.toNat ≤ maxBitshift) (.command (.invalidBitshift bitshift.toNat))
  return (bitshift.toNat, r)

/-- Reads a new block size; blocks may become shorter but not longer. -/
def readBlockSize (s : Stream) (r : BitReader) : Except Fault (Nat × BitReader) := do
  let (blockSize, r) ← r.adaptive s.info.version (StreamInfo.blockSizeParameter s.blockSize)
  let blockSize := blockSize.toNat
  ensure (blockSize ≤ s.blockSize) (.command (.blockSizeIncrease s.blockSize blockSize))
  ensure (0 < blockSize ∧ blockSize ≤ StreamInfo.maxBlockSize)
    (.command (.invalidBlockSize blockSize))
  return (blockSize, r)

/-- Carries out a command whose code was read. -/
def execute [Memory] (s : Stream) (c : Command) (r : BitReader) :
    Checked (Command.Effect × Stream × BitReader) := do
  Checked.note .trace .decoder s!"{c.name} on channel {s.round.index}"
  match c with
  | .verbatim =>
    let (length, r) ← skipVerbatim r
    Checked.note .debug .decoder s!"Skipped {length} byte verbatim block"
    return (.silent, s, r)
  | .bitshift =>
    let (bitshift, r) ← readBitshift r
    if bitshift ≠ s.bitshift then
      Checked.note .debug .decoder s!"Bitshift {s.bitshift} -> {bitshift}"
    return (.silent, { s with bitshift }, r)
  | .blockSize =>
    let (blockSize, r) ← s.readBlockSize r
    Checked.note .debug .decoder s!"Block size {s.blockSize} -> {blockSize}"
    return (.pause, { s with blockSize }, r)
  | .quit =>
    Checked.note .debug .decoder "Quit command received"
    return (.quit, s, r)
  | .diff0 | .diff1 | .diff2 | .diff3 | .qlpc | .zero => s.decodeChannel c r

/-! ### What a command does, without the log -/

theorem outcome_execute_verbatim [Memory] (s : Stream) (r : BitReader) :
    (s.execute .verbatim r).outcome =
      (liftM (skipVerbatim r) : Except Fault (Nat × BitReader)) >>= fun x =>
        .ok (.silent, s, x.2) := by
  rw [execute, Checked.outcome_bind, Checked.outcome_note, ok_bind, Checked.outcome_bind]
  rfl

theorem outcome_execute_bitshift [Memory] (s : Stream) (r : BitReader) :
    (s.execute .bitshift r).outcome =
      readBitshift r >>= fun x => .ok (.silent, { s with bitshift := x.1 }, x.2) := by
  rw [execute, Checked.outcome_bind, Checked.outcome_note, ok_bind, Checked.outcome_bind]
  show readBitshift r >>= _ = readBitshift r >>= _
  congr 1
  funext ⟨b, r⟩
  dsimp only
  split <;> rfl

theorem outcome_execute_blockSize [Memory] (s : Stream) (r : BitReader) :
    (s.execute .blockSize r).outcome =
      s.readBlockSize r >>= fun x => .ok (.pause, { s with blockSize := x.1 }, x.2) := by
  rw [execute, Checked.outcome_bind, Checked.outcome_note, ok_bind, Checked.outcome_bind]
  rfl

theorem outcome_execute_quit [Memory] (s : Stream) (r : BitReader) :
    (s.execute .quit r).outcome = .ok (.quit, s, r) := rfl

theorem outcome_execute_of_isAudio [Memory] {c : Command} (hc : c.isAudio = true) (s : Stream)
    (r : BitReader) : (s.execute c r).outcome = s.decodeChannel c r := by
  cases c
  case verbatim | bitshift | blockSize | quit => cases hc
  all_goals
    rw [execute, Checked.outcome_bind, Checked.outcome_note]
    rfl

/-! ## How far a command reaches -/

theorem passes_of_readBlock {s : Stream} {c : Command} {h h' : ChannelHistory} {r r' : BitReader}
    (hb : s.readBlock c h r = .ok (h', r')) : ∃ n, r.Passes n r' := by
  unfold readBlock at hb
  split at hb
  · cases hb
    exact ⟨0, .refl _⟩
  · obtain ⟨⟨parameter, r₁⟩, hparameter, hb⟩ := bind_eq_ok.1 hb
    obtain ⟨⟨parameter', r₁'⟩, hparameter', heq⟩ := bind_eq_ok.1 (lift_read_eq_ok.1 hparameter)
    obtain ⟨_, hparameter'⟩ := BitReader.passes_of_rice hparameter'
    cases heq
    obtain ⟨⟨predictor, r₂⟩, hpredictor, hb⟩ := bind_eq_ok.1 hb
    obtain ⟨_, hpredictor⟩ := Predictor.passes_of_read hpredictor
    obtain ⟨_, hblock⟩ := Predictor.passes_of_decodeBlock (lift_read_eq_ok.1 hb)
    exact ⟨_, (hparameter'.trans hpredictor).trans hblock⟩

theorem passes_of_decodeChannel [Memory] {s s' : Stream} {c : Command} {e : Command.Effect}
    {r r' : BitReader} (h : s.decodeChannel c r = .ok (e, s', r')) : ∃ n, r.Passes n r' := by
  obtain ⟨⟨h', r₁⟩, hb, h⟩ := bind_eq_ok.1 h
  obtain ⟨effect, -, h⟩ := bind_eq_ok.1 h
  cases h
  exact passes_of_readBlock hb

theorem passes_of_skipVerbatim {r r' : BitReader} {length : Nat}
    (h : skipVerbatim r = .ok (length, r')) : ∃ n, r.Passes n r' := by
  obtain ⟨⟨n, r₁⟩, hn, h⟩ := bind_eq_ok.1 h
  obtain ⟨⟨bytes, r₂⟩, hbytes, h⟩ := bind_eq_ok.1 h
  obtain ⟨_, hn⟩ := BitReader.passes_of_rice hn
  obtain ⟨_, hbytes⟩ := BitReader.passes_of_riceMany hbytes
  cases h
  exact ⟨_, hn.trans hbytes⟩

theorem passes_of_readBitshift {r r' : BitReader} {bitshift : Nat}
    (h : readBitshift r = .ok (bitshift, r')) : ∃ n, r.Passes n r' := by
  obtain ⟨⟨n, r₁⟩, hn, h⟩ := bind_eq_ok.1 h
  obtain ⟨_, -, h⟩ := bind_eq_ok.1 h
  obtain ⟨_, hn⟩ := BitReader.passes_of_rice (lift_read_eq_ok.1 hn)
  cases h
  exact ⟨_, hn⟩

theorem passes_of_readBlockSize {s : Stream} {r r' : BitReader} {blockSize : Nat}
    (h : s.readBlockSize r = .ok (blockSize, r')) : ∃ n, r.Passes n r' := by
  obtain ⟨⟨n, r₁⟩, hn, h⟩ := bind_eq_ok.1 h
  obtain ⟨_, -, h⟩ := bind_eq_ok.1 h
  obtain ⟨_, -, h⟩ := bind_eq_ok.1 h
  obtain ⟨_, hn⟩ := BitReader.passes_of_adaptive (lift_read_eq_ok.1 hn)
  cases h
  exact ⟨_, hn⟩

theorem passes_of_execute [Memory] {s s' : Stream} {c : Command} {e : Command.Effect}
    {r r' : BitReader} (h : (s.execute c r).outcome = .ok (e, s', r')) : ∃ n, r.Passes n r' := by
  cases c
  case verbatim =>
    rw [outcome_execute_verbatim] at h
    obtain ⟨⟨length, r₁⟩, hl, h⟩ := bind_eq_ok.1 h
    cases h
    exact passes_of_skipVerbatim (lift_read_eq_ok.1 hl)
  case bitshift =>
    rw [outcome_execute_bitshift] at h
    obtain ⟨⟨b, r₁⟩, hb, h⟩ := bind_eq_ok.1 h
    cases h
    exact passes_of_readBitshift hb
  case blockSize =>
    rw [outcome_execute_blockSize] at h
    obtain ⟨⟨b, r₁⟩, hb, h⟩ := bind_eq_ok.1 h
    cases h
    exact passes_of_readBlockSize hb
  case quit => cases h; exact ⟨0, .refl _⟩
  all_goals
    rw [outcome_execute_of_isAudio (by rfl)] at h
    exact passes_of_decodeChannel h

/-! ## Passes -/

/-- How a pass over the buffered bits ended. -/
inductive PassEnd where
  /-- The next command, or the header, has to wait for more input. -/
  | suspended
  /-- The pass ended between two commands. -/
  | paused
  /-- A round was completed. -/
  | frame (frame : Frame)
  /-- The stream ended. -/
  | quit
  deriving DecidableEq, Repr

/-- What a pass leads to: the state after its last complete command, and how it ended there, with
the reader at the place where the next pass resumes. -/
structure Pass where
  stream : Stream
  outcome : Except Fault (PassEnd × BitReader)

/-- Ends a stream of complete input that has `available` bits left but no further command. -/
def endWithoutQuit (s : Stream) (failLevel : Level) (available : Nat) (r : BitReader) :
    Logged Pass := do
  let report := Checked.report failLevel .warn .decoder (.missingQuit available)
  match ← report.run with
  | .ok () => return ⟨s, .ok (.quit, r)⟩
  | .error e => return ⟨s, .error e⟩

/-- Ends a stream of complete input that has too few bits left for any command but a quit command,
which has only four. -/
def endInTail (s : Stream) (failLevel : Level) (r : BitReader) : Logged Pass :=
  match Command.read r with
  | .ok (.quit, r) => do
    Logged.note .debug .decoder "Quit command received"
    return ⟨s, .ok (.quit, r)⟩
  | _ => s.endWithoutQuit failLevel r.available r

/-- Where reading is left off when a command code is cut short: behind its quotient if that is
complete, else behind the last bit. -/
def cutOff (r : BitReader) : BitReader :=
  match r.unary with
  | .ok (_, r) => r
  | .error _ => r.advance r.available

/-- Ends a pass at a command that failed with `fault`, and that began at `r`. -/
def endAtFault (s : Stream) (flush : Bool) (fault : Fault) (r : BitReader) : Logged Pass :=
  if fault.isOverread && !flush then do
    Logged.note .trace .decoder s!"command at bit {r.position} needs more input"
    return ⟨s, .ok (.suspended, r)⟩
  else return ⟨s, .error fault⟩

/-- Carries out commands until the pass ends.  `flush` says that the input is complete. -/
def runCommands [Memory] (s : Stream) (failLevel : Level) (flush : Bool) (r : BitReader) :
    Logged Pass :=
  if (r.rest.take Command.minimalBits).length < Command.minimalBits then
    if flush then s.endInTail failLevel r else return ⟨s, .ok (.paused, r)⟩
  else
    match hc : Command.read r with
    | .error fault =>
      if fault.isOverread && flush then s.endWithoutQuit failLevel r.available (cutOff r)
      else s.endAtFault flush fault r
    | .ok (c, r') =>
      let executed := s.execute c r'
      ⟨(), executed.log⟩ >>= fun _ ↦
        match he : executed.outcome with
        | .error fault => s.endAtFault flush fault r
        | .ok (.silent, s', r'') =>
          have : r''.available < r.available := by
            obtain ⟨m, hm⟩ := Command.passes_of_read hc
            obtain ⟨n, hn⟩ := passes_of_execute he
            have := hm.available_eq
            have := hn.available_eq
            omega
          runCommands s' failLevel flush r''
        | .ok (.pause, s', r'') => return ⟨s', .ok (.paused, r'')⟩
        | .ok (.frame frame, s', r'') => return ⟨s', .ok (.frame frame, r'')⟩
        | .ok (.quit, s', r'') => return ⟨s', .ok (.quit, r'')⟩
termination_by r.available

end Stream

end LosslessAudio
