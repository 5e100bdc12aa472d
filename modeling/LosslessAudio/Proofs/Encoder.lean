import Mathlib.Algebra.Group.Int.Defs
import LosslessAudio.Stream.Body
import LosslessAudio.Proofs.Codes

/-!
# A reference encoder

What a stream is to a writer.  `Encoder` remembers all earlier samples and block means of every
channel and knows no buffers; `Coding.predict`, `Encoder.offset` and `Encoder.blockMean` are the
formulas of the format, in 32-bit arithmetic that wraps around, where samples and means from before
the start of the stream count as 0.

`Writes e bits blocks` says that `bits` is one of the many ways to write `blocks`, the blocks of
all channels in the order of their turns, from the state `e` on.  The writer is free in how it
codes each block, in where it puts verbatim bytes, and in how it shortens the blocks and drops low
bits that are 0.
-/

set_option autoImplicit false

namespace LosslessAudio

/-! ## Blocks -/

/-- How a block is written, and the Rice parameter that is transmitted with it. -/
inductive Coding where
  /-- A block of zeros, of which nothing is transmitted. -/
  | zero
  /-- The samples continue a polynomial. -/
  | fixed (order : Fin 4) (parameter : Nat)
  /-- The samples are weighted sums of earlier ones, in units of 1/32. -/
  | linear (coefficients : List Int32) (parameter : Nat)

namespace Coding

/-- The command that opens a block. -/
def command : Coding → Command
  | .zero => .zero
  | .fixed 0 _ => .diff0
  | .fixed 1 _ => .diff1
  | .fixed 2 _ => .diff2
  | .fixed 3 _ => .diff3
  | .linear _ _ => .qlpc

/-- How many remainder bits the residuals have: one more than the parameter says, which version 0
transmits one too high. -/
def remainderBits (version : UInt8) (parameter : Nat) : Nat :=
  if version = 0 then parameter else parameter + 1

/-- The sum of earlier samples without the offset, the last sample first, with these weights. -/
def weightedSum (offset : Int32) : List Int32 → List Int32 → Int32
  | [], _ => 0
  | weight :: weights, past =>
    weight * (past.headD 0 - offset) + weightedSum offset weights past.tail

/-- The next sample as it is predicted from the earlier ones, the last one first. -/
def predict (offset bias : Int32) (past : List Int32) : Coding → Int32
  | .zero => 0
  | .fixed 0 _ => offset
  | .fixed 1 _ => past.getD 0 0
  | .fixed 2 _ => 2 * past.getD 0 0 - past.getD 1 0
  | .fixed 3 _ => 3 * past.getD 0 0 - 3 * past.getD 1 0 + past.getD 2 0
  | .linear [] _ => Sample.shiftRight offset Predictor.precision + offset
  | .linear coefficients _ =>
    Sample.shiftRight (bias + weightedSum offset coefficients past) Predictor.precision + offset

/-- What is transmitted of the predictor itself. -/
def predictorCode : Coding → List Bool
  | .linear coefficients _ =>
    Code.rice Predictor.orderParameter coefficients.length ++
      coefficients.flatMap (Code.signed (Predictor.precision + 1))
  | _ => []

/-- What is transmitted of a block behind `past`: by how much each sample differs from its
prediction. -/
def residuals (c : Coding) (offset bias : Int32) : List Int32 → List Int32 → List Int32
  | _, [] => []
  | past, x :: xs => (x - c.predict offset bias past) :: c.residuals offset bias (x :: past) xs

/-- Whether a block can be written in this way: only zeros go without residuals, the remainders of
residuals have at most 31 bits, and a prediction looks back no further than the context. -/
def Fits (version : UInt8) (contextLength : Nat) (block : List Int32) : Coding → Prop
  | .zero => ∀ x ∈ block, x = 0
  | .fixed _ parameter => remainderBits version parameter ≤ Rice.maxParameter
  | .linear coefficients parameter =>
    remainderBits version parameter ≤ Rice.maxParameter ∧ coefficients.length ≤ contextLength

instance (c : Coding) (version : UInt8) (contextLength : Nat) (block : List Int32) :
    Decidable (c.Fits version contextLength block) :=
  match c with
  | .zero => List.decidableBAll (fun x ↦ x = 0) block
  | .fixed _ parameter =>
    inferInstanceAs (Decidable (remainderBits version parameter ≤ Rice.maxParameter))
  | .linear coefficients parameter =>
    inferInstanceAs (Decidable (remainderBits version parameter ≤ Rice.maxParameter ∧
      coefficients.length ≤ contextLength))

end Coding

/-! ## The state of the writer -/

/-- What a writer keeps between commands. -/
structure Encoder where
  info : StreamInfo
  /-- The length of the next block. -/
  blockSize : Nat
  /-- How many low bits are dropped. -/
  bitshift : Nat
  /-- The channel whose block comes next. -/
  turn : Nat
  /-- All earlier samples of each channel without the dropped bits, the last one first. -/
  past : Nat → List Int32
  /-- The means of all earlier blocks of each channel, the last one first. -/
  means : Nat → List Int32
  /-- How long the blocks of the last complete round were, if there was one. -/
  lastRound : Option Nat

namespace Encoder

/-- The writer behind the header. -/
def start (info : StreamInfo) : Encoder where
  info := info
  blockSize := info.blockSize
  bitshift := 0
  turn := 0
  past _ := []
  means _ := []
  lastRound := none

variable (e : Encoder)

/-- The offset of the next block: the average of the latest block means, if means are used. -/
def offset : Int32 :=
  if e.info.meanCount ≤ 0 then 0
  else
    let sum := ((e.means e.turn).take e.info.meanCount.toInt.toNat).sum
    if e.info.version < 2 then sum / e.info.meanCount
    else
      Sample.shiftRight ((sum + e.info.meanCount / 2) / e.info.meanCount) (min 1 e.bitshift)

/-- The mean of a block, as later offsets are averaged from it. -/
def blockMean (block : List Int32) : Int32 :=
  if e.info.version < 2 then block.sum / Int32.ofNat block.length
  else
    Sample.shiftLeft ((block.sum + Int32.ofNat (block.length / 2)) / Int32.ofNat block.length)
      e.bitshift

/-- The samples of a block without the dropped bits. -/
def lowered (block : List Int16) : List Int32 :=
  block.map fun x ↦ Sample.shiftRight x.toInt32 e.bitshift

/-- Whether the turn is that of the last channel. -/
def isLast : Prop :=
  e.turn + 1 = e.info.channels

instance : Decidable e.isLast :=
  inferInstanceAs (Decidable (e.turn + 1 = e.info.channels))

/-- The writer behind a block. -/
def behind (block : List Int32) : Encoder :=
  { e with
    turn := if e.isLast then 0 else e.turn + 1
    past := fun c ↦ if c = e.turn then block.reverse ++ e.past c else e.past c
    means := fun c ↦ if c = e.turn then e.blockMean block :: e.means c else e.means c
    lastRound := if e.isLast then some e.blockSize else e.lastRound }

/-! ## Commands -/

/-- The residuals of a block, each with its sign. -/
def residualCode (coding : Coding) (parameter : Nat) (block : List Int32) : List Bool :=
  (coding.residuals e.offset e.info.predictionBias (e.past e.turn) block).flatMap
    (Code.signed (Coding.remainderBits e.info.version parameter))

/-- A command code. -/
def commandCode (c : Command) : List Bool :=
  Code.rice Command.codeParameter c.code

/-- What stands behind the command code of a block. -/
def blockBody (coding : Coding) (block : List Int32) : List Bool :=
  match coding with
  | .zero => []
  | .fixed _ parameter | .linear _ parameter =>
    Code.rice Stream.residualParameter parameter ++
      (coding.predictorCode ++ e.residualCode coding parameter block)

/-- A block of the channel whose turn it is. -/
def blockCode (coding : Coding) (block : List Int32) : List Bool :=
  commandCode coding.command ++ e.blockBody coding block

/-- Bytes that the stream carries and a decoder ignores. -/
def verbatimCode (bytes : Bytes) : List Bool :=
  commandCode .verbatim ++ (Code.rice StreamInfo.verbatimLengthParameter bytes.length ++
    (bytes.map (·.toNat)).flatMap (Code.rice StreamInfo.verbatimByteParameter))

/-- The announcement of another bitshift. -/
def bitshiftCode (bitshift : Nat) : List Bool :=
  commandCode .bitshift ++ Code.rice Stream.bitshiftParameter bitshift

/-- The announcement of shorter blocks, as an adaptive number with parameter `k`. -/
def blockSizeCode (k blockSize : Nat) : List Bool :=
  commandCode .blockSize ++
    Code.adaptive e.info.version (StreamInfo.blockSizeParameter e.blockSize) k blockSize

end Encoder

/-! ## Streams -/

open Encoder in
/-- `Writes e bits blocks` says that `bits` is a way to write `blocks` from the state `e` on. -/
inductive Writes : Encoder → List Bool → List (List Int16) → Prop
  /-- The stream ends behind a round, and something fills up the last byte. -/
  | quit {e : Encoder} (hturn : e.turn = 0) (padding : List Bool) :
      Writes e (commandCode .quit ++ padding) []
  | verbatim {e : Encoder} {bits : List Bool} {blocks : List (List Int16)} (bytes : Bytes)
      (hlength : bytes.length < 2 ^ 32) (h : Writes e bits blocks) :
      Writes e (verbatimCode bytes ++ bits) blocks
  | bitshift {e : Encoder} {bits : List Bool} {blocks : List (List Int16)} (bitshift : Nat)
      (hle : bitshift ≤ Stream.maxBitshift) (h : Writes { e with bitshift } bits blocks) :
      Writes e (bitshiftCode bitshift ++ bits) blocks
  /-- Between two rounds blocks may become shorter. -/
  | blockSize {e : Encoder} {bits : List Bool} {blocks : List (List Int16)} (k blockSize : Nat)
      (hturn : e.turn = 0) (hk : k ≤ Rice.maxParameter) (hpos : 0 < blockSize)
      (hle : blockSize ≤ e.blockSize) (h : Writes { e with blockSize } bits blocks) :
      Writes e (e.blockSizeCode k blockSize ++ bits) blocks
  /-- The dropped bits of a block are 0, and the round before it was long enough to make up the
  whole context. -/
  | block {e : Encoder} {bits : List Bool} {blocks : List (List Int16)} (coding : Coding)
      (block : List Int16) (hlength : block.length = e.blockSize)
      (hdropped : ∀ x ∈ block, (2 ^ e.bitshift : Int) ∣ x.toInt)
      (hcontext : ∀ n ∈ e.lastRound, e.info.contextLength ≤ n)
      (hfits : coding.Fits e.info.version e.info.contextLength (e.lowered block))
      (h : Writes (e.behind (e.lowered block)) bits blocks) :
      Writes e (e.blockCode coding (e.lowered block) ++ bits) (block :: blocks)

end LosslessAudio
