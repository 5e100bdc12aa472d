import LosslessAudio.Bits.Rice
import LosslessAudio.Channel
import LosslessAudio.Command

/-!
# Prediction

A block is transmitted as the differences between its samples and what the samples before them
predict.  There are two kinds of predictors: polynomial ones of order 0 to 3, which continue the
samples along a polynomial, and linear ones, whose coefficients are transmitted with the block, in
units of 1/32.

`Predictor.decodeBlock` undoes the prediction sample by sample.  The offset of the channel is what
an order of 0 predicts; a linear predictor of higher order works on samples from which the offset
is removed, the context included, and a fixed one ignores it.
-/

set_option autoImplicit false

namespace LosslessAudio

/-- How the samples of a block are predicted. -/
inductive Predictor where
  /-- Continues a polynomial; the order is the number of samples looked at. -/
  | fixed (order : Fin 4)
  /-- A weighted sum of earlier samples, the weight of the last one first. -/
  | linear (coefficients : List Int32)
  deriving DecidableEq, Repr

namespace Predictor

/-- The Rice parameter of the order of a linear predictor. -/
def orderParameter : Nat := 2

/-- The parameter of the signed codes of its coefficients, and how many bits of them lie behind
the binary point. -/
def precision : Nat := 5

/-- Reads the predictor of an audio command, of which only linear ones are transmitted; they may
not look back further than `kept` samples. -/
def read (command : Command) (kept : Nat) (r : BitReader) : Except Fault (Predictor × BitReader) :=
  match command.fixedOrder? with
  | some order => .ok (.fixed order, r)
  | none => do
    let (order, r) ← r.rice orderParameter
    let order := order.toNat
    ensure (order ≤ kept) (.command (.predictorOrder order kept))
    let (coefficients, r) ← r.signedRiceMany (Int32.ofNat precision) order
    return (.linear coefficients, r)

/-- The weights of the earlier samples, that of the last one first. -/
def weights : Predictor → List Int32
  | .fixed 0 => []
  | .fixed 1 => [1]
  | .fixed 2 => [2, -1]
  | .fixed 3 => [3, -3, 1]
  | .linear coefficients => coefficients

/-- How many earlier samples are looked at. -/
def order (p : Predictor) : Nat :=
  p.weights.length

/-- By how many bits the weighted sum is shifted to the right. -/
def shift : Predictor → Nat
  | .fixed _ => 0
  | .linear _ => precision

/-- The offset that is taken off the samples during prediction. -/
def removedOffset (offset : Int32) : Predictor → Int32
  | .fixed _ => 0
  | .linear _ => offset

/-- What the weighted sum starts from, given the offset of the channel and the bias of linear
prediction. -/
def base (offset bias : Int32) (p : Predictor) : Int32 :=
  if p.order = 0 then offset
  else match p with
    | .fixed _ => 0
    | .linear _ => bias

/-- What `p` predicts, given the earlier samples, the last one first. -/
def predict (p : Predictor) (base : Int32) (past : List Int32) : Int32 :=
  let sum := (List.zipWith (· * ·) p.weights past).foldl (· + ·) base
  Sample.shiftRight sum p.shift

/-- Decodes `n` samples behind `past`, whose last sample comes first; the answer holds all of them
in the same order. -/
def extend (p : Predictor) (base : Int32) (parameter : Int32) (r : BitReader)
    (past : List Int32) : Nat → Except ReadFault (List Int32 × BitReader)
  | 0 => .ok (past, r)
  | n + 1 => do
    let (residual, r) ← r.signedRice parameter
    p.extend base parameter r ((residual + p.predict base past) :: past) n

/-- A context whose last `order` samples have the offset taken off. -/
def removeOffset (p : Predictor) (offset : Int32) (context : List Int32) : List Int32 :=
  let untouched := context.length - p.order
  context.take untouched ++ (context.drop untouched).map (· - p.removedOffset offset)

/-- Decodes one block, whose residuals have the given Rice parameter. -/
def decodeBlock (p : Predictor) (h : ChannelHistory) (blockSize : Nat)
    (parameter offset bias : Int32) (r : BitReader) :
    Except ReadFault (ChannelHistory × BitReader) := do
  let context := p.removeOffset offset h.context
  let (past, r) ← p.extend (p.base offset bias) parameter r context.reverse blockSize
  let block := (past.take blockSize).reverse.map (· + p.removedOffset offset)
  return ({ h with context }.withBlock block, r)

/-! ## How far a block reaches -/

theorem passes_of_read {c : Command} {kept : Nat} {r r' : BitReader} {p : Predictor}
    (h : read c kept r = .ok (p, r')) : ∃ n, r.Passes n r' := by
  unfold read at h
  split at h
  · cases h
    exact ⟨0, .refl _⟩
  · obtain ⟨⟨order, r₁⟩, horder, h⟩ := bind_eq_ok.1 h
    obtain ⟨_, horder⟩ := BitReader.passes_of_rice (lift_read_eq_ok.1 horder)
    obtain ⟨_, -, h⟩ := bind_eq_ok.1 h
    obtain ⟨⟨coefficients, r₂⟩, hcoefficients, h⟩ := bind_eq_ok.1 h
    obtain ⟨_, hcoefficients⟩ :=
      BitReader.passes_of_signedRiceMany (lift_read_eq_ok.1 hcoefficients)
    cases h
    exact ⟨_, horder.trans hcoefficients⟩

theorem passes_of_extend {p : Predictor} {base parameter : Int32} {r r' : BitReader}
    {past past' : List Int32} {n : Nat} (h : p.extend base parameter r past n = .ok (past', r')) :
    ∃ m, r.Passes m r' := by
  induction n generalizing r past with
  | zero => cases h; exact ⟨0, .refl _⟩
  | succ n ih =>
    obtain ⟨⟨x, r₁⟩, hx, h⟩ := bind_eq_ok.1 h
    obtain ⟨_, hx⟩ := BitReader.passes_of_signedRice hx
    obtain ⟨_, hn⟩ := ih h
    exact ⟨_, hx.trans hn⟩

theorem passes_of_decodeBlock {p : Predictor} {h h' : ChannelHistory} {blockSize : Nat}
    {parameter offset bias : Int32} {r r' : BitReader}
    (hd : p.decodeBlock h blockSize parameter offset bias r = .ok (h', r')) :
    ∃ n, r.Passes n r' := by
  obtain ⟨⟨past, r₁⟩, hp, hd⟩ := bind_eq_ok.1 hd
  cases hd
  exact passes_of_extend hp

end Predictor

end LosslessAudio
