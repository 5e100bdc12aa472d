import LosslessAudio.Proofs.Row
import LosslessAudio.Proofs.Session
import LosslessAudio.Proofs.Window

/-!
# A machine with fixed storage

`Decoder` speaks of lists that come and go.  A program sets its storage up once and overwrites it in
place: registers for the parameters of the stream, one row for each channel, and a window on the
input.  This file writes such a program down.

It has no answer (`none`) where a program would break down: where it reaches beyond the end of a
list, takes away more than there is, divides by 0, shifts by the width of a sample or more, goes
round a loop without getting on, or comes to a branch that is there only because it should be
impossible.  And what it does before it fails with a `Fault` stays done, so that a command that is
put off may leave its traces.

* `Registers` and the `Routine`s on them — the header and the commands of the body.
* `Machine` — the whole program, with the calls that a caller can make; `Machine.run?` makes any
  number of them.
-/

set_option autoImplicit false

namespace LosslessAudio

/-! ## Registers -/

/-- The parameters of a stream, and the rows of its channels. -/
structure Registers where
  failLevel : Level
  info : Option StreamInfo
  channels : Nat
  blockSize : Nat
  version : UInt8
  contextLength : Nat
  meanCount : Int32
  bitshift : Nat
  /-- The bias of the sums of linear prediction. -/
  bias : Int32
  /-- The channel whose block comes next. -/
  currentChannel : Nat
  headerParsed : Bool
  quitReceived : Bool
  failed : Bool
  rows : List Row
  deriving DecidableEq, Repr

/-- The registers before the header is read. -/
def Registers.initial (failLevel : Level) : Registers :=
  { failLevel
    info := none
    channels := 0
    blockSize := 0
    version := 0
    contextLength := 0
    meanCount := -1
    bitshift := 0
    bias := 0
    currentChannel := 0
    headerParsed := false
    quitReceived := false
    failed := false
    rows := [] }

/-- What a program does with the registers: it may break down or fail, and whether it fails or not
the registers are what it has made of them. -/
abbrev Routine (α : Type) := ExceptT Fault (StateT Registers Option) α

/-- What can fail without touching the registers. -/
instance : MonadLift (Except Fault) (ExceptT Fault (StateT Registers Option)) where
  monadLift x := ExceptT.mk (pure x)

namespace Routine

variable {α β : Type}

/-- What a routine comes to on some registers: nothing if it breaks down, and else its outcome and
the registers behind it. -/
def on (x : Routine α) (s : Registers) : Option (Except Fault α × Registers) :=
  x.run.run s

@[simp] theorem on_pure (a : α) (s : Registers) : on (pure a) s = some (.ok a, s) := rfl

@[simp] theorem on_throw (fault : Fault) (s : Registers) :
    on (throw fault : Routine α) s = some (.error fault, s) := rfl

/-- A routine goes on behind a part of it that did not fail. -/
theorem on_bind_of_ok {x : Routine α} {f : α → Routine β} {a : α} {s s' : Registers}
    {y : Option (Except Fault β × Registers)} (hx : x.on s = some (.ok a, s'))
    (hf : (f a).on s' = y) : (x >>= f).on s = y := by
  rw [← hf]
  exact congrArg (fun z => z.bind fun p => ExceptT.bindCont f p.1 p.2) hx

/-- It ends at a part that failed. -/
theorem on_bind_of_error {x : Routine α} {f : α → Routine β} {fault : Fault} {s s' : Registers}
    (hx : x.on s = some (.error fault, s')) : (x >>= f).on s = some (.error fault, s') :=
  congrArg (fun z => z.bind fun p => ExceptT.bindCont f p.1 p.2) hx

/-! ## Audio commands -/

/-- The row of the channel whose block comes next. -/
def row : Routine Row := do
  let s ← get
  s.rows[s.currentChannel]?

/-- Overwrites that row. -/
def putRow (row : Row) : Routine Unit := do
  let s ← get
  let rows ← Access.put? s.rows s.currentChannel row
  set { s with rows }

/-- The Rice parameter of the residuals of a block; a block of zeros has none. -/
def readParameter (version : UInt8) (c : Command) (r : BitReader) :
    Except ReadFault (Int32 × BitReader) :=
  if c = .zero then .ok (0, r) else Stream.readResidualParameter version r

/-- Reads the block that an audio command carries into the row of its channel. -/
def readBlock (c : Command) (r : BitReader) : Routine BitReader := do
  let s ← get
  let (parameter, r) ← readParameter s.version c r
  let h ← row
  let offset ← h.offset? s.version s.meanCount s.bitshift
  if c = .zero then
    putRow (← h.modifyBlock? (fun _ => 0) s.blockSize)
    return r
  else
    let (predictor, r) ← Predictor.read c s.contextLength r
    let (outcome, h) ← predictor.decodeBlock? h s.blockSize parameter offset s.bias r
    putRow h
    (liftM outcome : Except Fault BitReader)

/-- Brings the row of the channel up to date once its block is there. -/
def settleBlock : Routine Unit := do
  let s ← get
  let h ← row
  let h ← h.pushMean? s.version s.meanCount s.blockSize s.bitshift
  let h ← h.carryOver? s.blockSize
  putRow (← h.shiftBlock? s.blockSize s.bitshift)

/-- The samples of a frame, found at every place of every block. -/
def interleave? (rows : List Row) (blockSize : Nat) : Option (List Int16) := do
  let blocks ← rows.mapM (·.current? blockSize)
  let samples ← (List.range blockSize).mapM fun i => blocks.mapM fun block => block[i]?
  return samples.flatten.map Frame.clip

/-- Passes the turn on; behind the last channel there is a frame. -/
def passTurn [Memory] : Routine Command.Effect := do
  let s ← get
  let next := s.currentChannel + 1
  set { s with currentChannel := if next < s.channels then next else 0 }
  if next < s.channels then return .silent
  else
    Memory.reserve .frame (s.rows.length * s.blockSize)
    let samples ← interleave? s.rows s.blockSize
    return .frame ⟨s.rows.length, s.blockSize, samples⟩

/-- Carries out an audio command for the channel whose turn it is. -/
def decodeChannel [Memory] (c : Command) (r : BitReader) : Routine
    (Command.Effect × BitReader) := do
  let r ← readBlock c r
  settleBlock
  return (← passTurn, r)

/-! ## Any command -/

/-- Whether a command carries a block, each at the place its code names. -/
def audioTable : List Bool :=
  [true, true, true, true, false, false, false, true, true, false]

/-- Reads a new block size. -/
def readBlockSize (version : UInt8) (current : Nat) (r : BitReader) :
    Except Fault (Nat × BitReader) := do
  let (blockSize, r) ← r.adaptive version (StreamInfo.blockSizeParameter current)
  let blockSize := blockSize.toNat
  ensure (blockSize ≤ current) (.command (.blockSizeIncrease current blockSize))
  ensure (0 < blockSize ∧ blockSize ≤ StreamInfo.maxBlockSize)
    (.command (.invalidBlockSize blockSize))
  return (blockSize, r)

/-- Carries out a command that carries no block.  That it does carry one should be impossible. -/
def adjust (c : Command) (r : BitReader) : Routine (Command.Effect × BitReader) :=
  match c with
  | .verbatim => do
    let (_, r) ← (liftM (Stream.skipVerbatim r) : Except Fault (Nat × BitReader))
    return (.silent, r)
  | .bitshift => do
    let (bitshift, r) ← Stream.readBitshift r
    modify fun s => { s with bitshift }
    return (.silent, r)
  | .blockSize => do
    let s ← get
    let (blockSize, r) ← readBlockSize s.version s.blockSize r
    set { s with blockSize }
    return (.pause, r)
  | .quit => do
    modify fun s => { s with quitReceived := true }
    return (.quit, r)
  | .diff0 | .diff1 | .diff2 | .diff3 | .qlpc | .zero => (none : Option _)

/-- Carries out a command whose code was read. -/
def execute [Memory] (c : Command) (r : BitReader) : Routine (Command.Effect × BitReader) := do
  let audio ← audioTable[c.code]?
  if audio then decodeChannel c r else adjust c r

/-- Reads a command and carries it out. -/
def carryOut [Memory] (r : BitReader) : Routine (Command.Effect × BitReader) := do
  let (c, r) ← Command.read r
  execute c r

/-! ## Passes -/

/-- Ends a stream of complete input that has `available` bits left but no further command. -/
def endWithoutQuit (available : Nat) (r : BitReader) : Routine (Stream.PassEnd × BitReader) := do
  let s ← get
  ensure (¬Level.warn ≤ s.failLevel) (Fault.missingQuit available)
  set { s with quitReceived := true }
  return (.quit, r)

/-- Ends a stream of complete input that has too few bits left for any command but a quit
command. -/
def endInTail (r : BitReader) : Routine (Stream.PassEnd × BitReader) :=
  match Command.read r with
  | .ok (.quit, r) => adjust .quit r >>= fun _ => pure (.quit, r)
  | _ => endWithoutQuit r.available r

/-- Ends a pass at a command that failed with `fault`, and that began at `r`. -/
def endAtFault (flush : Bool) (fault : Fault) (r : BitReader) :
    Routine (Stream.PassEnd × BitReader) :=
  if fault.isOverread && !flush then pure (.suspended, r) else throw fault

/-- Carries out commands until the pass ends. -/
def runCommands [Memory] (flush : Bool) (r : BitReader) (s : Registers) :
    Option (Except Fault (Stream.PassEnd × BitReader) × Registers) :=
  if r.available < Command.minimalBits then
    if flush then (endInTail r).on s else some (.ok (.paused, r), s)
  else
    match Command.read r with
    | .error fault =>
      if fault.isOverread && flush then (endWithoutQuit r.available (Stream.cutOff r)).on s
      else (endAtFault flush fault r).on s
    | .ok (c, r₁) =>
      match (execute c r₁).on s with
      | none => none
      | some (.error fault, s') => (endAtFault flush fault r).on s'
      | some (.ok (.silent, r₂), s') =>
        if r₂.available < r.available then runCommands flush r₂ s' else none
      | some (.ok (.pause, r₂), s') => some (.ok (.paused, r₂), s')
      | some (.ok (.frame frame, r₂), s') => some (.ok (.frame frame, r₂), s')
      | some (.ok (.quit, r₂), s') => some (.ok (.quit, r₂), s')
termination_by r.available

/-- Sets up the row of a channel. -/
def createRow [Memory] (info : StreamInfo) : Except Fault Row := do
  Memory.reserve .samples (info.contextLength + info.blockSize)
  Memory.reserve .means (ChannelHistory.keptMeans info.meanCount)
  return {
    samples := List.replicate (info.contextLength + info.blockSize) 0
    contextLength := info.contextLength
    means := List.replicate (ChannelHistory.keptMeans info.meanCount) info.sampleType.initialMean }

/-- Sets up the rows of `n` channels. -/
def createRows [Memory] (info : StreamInfo) : Nat → Except Fault (List Row)
  | 0 => .ok []
  | n + 1 => do
    let h ← createRow info
    let rows ← createRows info n
    return h :: rows

/-- Sets the registers for a stream whose header was read. -/
def begin [Memory] (info : StreamInfo) : Routine Unit := do
  let rows ← createRows info info.channels
  modify fun s => { s with
    info := some info
    channels := info.channels
    blockSize := info.blockSize
    version := info.version
    contextLength := info.contextLength
    meanCount := info.meanCount
    bitshift := 0
    bias := info.predictionBias
    currentChannel := 0
    headerParsed := true
    rows }

/-- Reads the header, if all of it is there. -/
def readHeader [Memory] (flush : Bool) (r : BitReader) : Routine (Stream.PassEnd × BitReader) := do
  let s ← get
  match (StreamInfo.read s.failLevel r).outcome with
  | .error fault => endAtFault flush fault r
  | .ok (info, r) => do
    begin info
    return (.paused, r)

/-- One pass, over the header first and over commands from then on. -/
def pass [Memory] (flush : Bool) (r : BitReader) (s : Registers) :
    Option (Except Fault (Stream.PassEnd × BitReader) × Registers) :=
  if s.headerParsed then runCommands flush r s else (readHeader flush r).on s

end Routine

/-! ## The whole program -/

/-- A decoder as a program keeps it. -/
structure Machine where
  /-- The frame size that a reset goes back to. -/
  initialFrameSize : Nat
  registers : Registers
  window : Window
  deriving DecidableEq, Repr

/-- A call, and how much memory the byte buffer has when it is made. -/
structure Turn where
  call : Call
  capacity : Nat

namespace Machine

/-- A machine before its first input. -/
def start (frameSize : Nat) (failLevel : Level) : Machine :=
  ⟨frameSize, .initial failLevel, .empty frameSize⟩

variable (m : Machine)

/-- The machine as it was before its first input. -/
def reset : Machine :=
  start m.initialFrameSize m.registers.failLevel

/-- Says what counts as a failure from now on. -/
def setFailLevel (failLevel : Level) : Machine :=
  { m with registers := { m.registers with failLevel } }

/-- The machine once it has given up. -/
def givenUp : Machine :=
  { m with
    window := m.window.clear
    registers := { m.registers with
      channels := if m.registers.headerParsed then m.registers.channels else 0
      failed := true } }

/-- Gives up.  Where the bits ran out, the input was cut short. -/
def giveUp? (fault : Fault) : Option (Except Fault Status × Machine) := do
  let length ← m.window.length?
  return (.error (fault.reported length), m.givenUp)

/-- Drops the input that a pass has used up. -/
def settle? (ending : Stream.PassEnd) (r : BitReader) :
    Option (Except Fault Status × Machine) := do
  let window ← m.window.consume? r.position
  let window := if ending = .suspended then window.grow else window
  return (.ok (Decoder.statusOf ending), { m with window })

/-- Runs one pass over the pending input. -/
def runPass? [Memory] (flush : Bool) : Option (Except Fault Status × Machine) := do
  let r ← m.window.reader?
  let (outcome, registers) ← Routine.pass flush r m.registers
  let m := { m with registers }
  match outcome with
  | .error fault => m.giveUp? fault
  | .ok (ending, r) => m.settle? ending r

/-- Decodes the next piece of the stream. -/
def decode? [Memory] (capacity : Nat) (offered : Option Bytes) :
    Option (Except Fault Output × Machine) :=
  let bytes := offered.getD []
  if m.registers.failed then some (.error .failedBefore, m)
  else if m.registers.quitReceived then some (.ok ⟨bytes.length, .finished⟩, m)
  else do
    match ← m.window.append? capacity bytes with
    | .error fault =>
      let (answer, m) ← m.giveUp? fault
      return (answer.map (⟨0, ·⟩), m)
    | .ok (consumed, window) =>
      let m := { m with window }
      if ← window.isReady? offered.isNone then
        let (answer, m) ← m.runPass? offered.isNone
        return (answer.map (⟨consumed, ·⟩), m)
      else return (.ok ⟨consumed, .needMoreInput⟩, m)

/-- The machine behind a turn. -/
def take? [Memory] (turn : Turn) : Option Machine :=
  match turn.call with
  | .decode offered => (m.decode? turn.capacity offered).map (·.2)
  | .setFailLevel failLevel => some (m.setFailLevel failLevel)
  | .reset => some m.reset

/-- The machine behind any number of turns. -/
def run? [Memory] (turns : List Turn) : Option Machine :=
  turns.foldlM (take? ·) m

end Machine

end LosslessAudio
