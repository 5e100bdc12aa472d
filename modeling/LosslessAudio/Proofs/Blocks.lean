import Mathlib.Algebra.Group.Int.Defs
import Mathlib.Algebra.Group.Nat.Defs
import LosslessAudio.Stream.Body

/-!
# What becomes of a block

`Stream.settleBlock` records the mean of a block, makes its end the context of the next one and
gives back its low bits, all in one row of samples.  Here is what this does to the three parts of a
history, for a block that was just written in front of what was there before
(`settleBlock_withBlock`).

The arithmetic facts in front say what the shifts do to the value of a sample.
-/

set_option autoImplicit false

namespace LosslessAudio

/-! ## Shifts -/

namespace Sample

/-- The amounts that are shifted by stand for themselves. -/
theorem toNat_amount : ∀ n : Fin 32, ((Int32.ofNat n).toBitVec.smod 32).toNat = n := by
  decide

/-- A shift to the right divides, rounding down. -/
theorem toInt_shiftRight (x : Int32) {n : Nat} (hn : n < 32) :
    (shiftRight x n).toInt = x.toInt / 2 ^ n := by
  have h := toNat_amount ⟨n, hn⟩
  rw [shiftRight, Nat.mod_eq_of_lt hn]
  show ((x >>> Int32.ofNat n).toBitVec).toInt = _
  rw [Int32.toBitVec_shiftRight, BitVec.sshiftRight_eq', BitVec.toInt_sshiftRight, h,
    Int.shiftRight_eq_div_pow]
  rfl

/-- A shift to the left multiplies, and wraps. -/
theorem toInt_shiftLeft (x : Int32) {n : Nat} (hn : n < 32) :
    (shiftLeft x n).toInt = (x.toInt * 2 ^ n).bmod (2 ^ 32) := by
  have h := toNat_amount ⟨n, hn⟩
  rw [shiftLeft, Nat.mod_eq_of_lt hn]
  show ((x <<< Int32.ofNat n).toBitVec).toInt = (x.toBitVec.toInt * 2 ^ n).bmod (2 ^ 32)
  rw [Int32.toBitVec_shiftLeft, BitVec.shiftLeft_eq', BitVec.toInt_shiftLeft, h,
    Nat.shiftLeft_eq, BitVec.toInt_eq_toNat_bmod, Int.bmod_mul_bmod, Int.natCast_mul,
    Int.natCast_pow]
  rfl

@[simp] theorem shiftRight_zero (x : Int32) : shiftRight x 0 = x := by
  simp [shiftRight]

@[simp] theorem shiftLeft_zero (x : Int32) : shiftLeft x 0 = x := by
  simp [shiftLeft]

/-- Bits that are 0 may be dropped and given back. -/
theorem shiftLeft_shiftRight {x : Int32} {n : Nat} (hn : n < 32) (h : (2 ^ n : Int) ∣ x.toInt) :
    shiftLeft (shiftRight x n) n = x := by
  have hlow := x.le_toInt
  have hhigh := x.toInt_lt
  apply Int32.toInt_inj.1
  rw [toInt_shiftLeft _ hn, toInt_shiftRight _ hn, Int.ediv_mul_cancel h,
    Int.bmod_eq_of_le (by omega) (by omega)]

end Sample

/-! ## One row of samples -/

namespace ChannelHistory

variable (h : ChannelHistory) (block : List Int32)

@[simp] theorem context_withBlock : (h.withBlock block).context = h.context := rfl

@[simp] theorem means_withBlock : (h.withBlock block).means = h.means := rfl

/-- A block that was just written is the current one. -/
@[simp] theorem current_withBlock : (h.withBlock block).current block.length = block :=
  List.take_left' rfl

/-- The last samples of a history, of which there are as many as it keeps. -/
theorem drop_samples_withBlock :
    ((h.withBlock block).samples.drop block.length).take h.context.length =
      (h.context ++ block).drop block.length := by
  have hle : block.length ≤ (h.context ++ block).length := by
    rw [List.length_append]
    exact Nat.le_add_left _ _
  have hlen : ((h.context ++ block).drop block.length).length = h.context.length := by
    rw [List.length_drop, List.length_append, Nat.add_sub_cancel]
  rw [samples, context_withBlock, withBlock]
  dsimp only
  rw [← List.append_assoc, List.drop_append_of_le_length hle, List.take_left' hlen]

/-- The means after another one was recorded. -/
def meansAfter (meanCount mean : Int32) : List Int32 :=
  if meanCount ≤ 0 then h.means
  else (h.means.take meanCount.toInt.toNat).drop 1 ++ [mean] ++
    h.means.drop meanCount.toInt.toNat

/-- The mean of a block, as it is recorded. -/
def meanOf (version : UInt8) (bitshift : Nat) : Int32 :=
  if version < 2 then block.foldl (· + ·) 0 / Int32.ofNat block.length
  else Sample.shiftLeft
    (block.foldl (· + ·) (Int32.ofNat (block.length / 2)) / Int32.ofNat block.length) bitshift

/-- The mean is taken of the block that was just written. -/
theorem blockMean_withBlock (version : UInt8) (bitshift : Nat) :
    (h.withBlock block).blockMean version block.length bitshift =
      meanOf block version bitshift := by
  rw [blockMean, current_withBlock, meanOf]
  split <;> rfl

/-- Recording the mean leaves the samples alone. -/
theorem pushMean_withBlock (version : UInt8) (meanCount : Int32) (bitshift : Nat) :
    (h.withBlock block).pushMean version meanCount block.length bitshift =
      { h with means := h.meansAfter meanCount (meanOf block version bitshift) }.withBlock
        block := by
  rw [pushMean, meansAfter]
  split
  · rfl
  · rw [blockMean_withBlock]
    rfl

/-- The end of the block becomes the context, and the block stays. -/
theorem carryOver_withBlock :
    (h.withBlock block).carryOver block.length =
      { h with context := (h.context ++ block).drop block.length }.withBlock block := by
  rw [carryOver, context_withBlock, drop_samples_withBlock]
  rfl

/-- Giving the low bits back changes the block and nothing else. -/
theorem shiftBlock_withBlock (bitshift : Nat) :
    ((h.withBlock block).shiftBlock block.length bitshift) =
      h.withBlock (block.map fun x => Sample.shiftLeft x bitshift) := by
  rw [shiftBlock]
  split
  · rename_i hzero
    subst hzero
    simp
  · rw [current_withBlock, withBlock, withBlock, withBlock]
    simp

end ChannelHistory

/-! ## Taking the offset off -/

namespace Predictor

/-- The offset is taken off the newest samples, which come first when the context is reversed. -/
theorem reverse_removeOffset (p : Predictor) (offset : Int32) (context : List Int32) :
    (p.removeOffset offset context).reverse =
      (context.reverse.take p.order).map (· - p.removedOffset offset) ++
        context.reverse.drop p.order := by
  rw [removeOffset, List.reverse_append, ← List.map_reverse, List.take_reverse, List.drop_reverse]

theorem length_removeOffset (p : Predictor) (offset : Int32) (context : List Int32) :
    (p.removeOffset offset context).length = context.length := by
  simp only [removeOffset, List.length_append, List.length_map, List.length_take, List.length_drop]
  omega

end Predictor

namespace Stream

/-- **The history behind a block**: its mean is recorded, its end is the context of the next block,
and its low bits are back. -/
theorem settleBlock_withBlock {s : Stream} {h : ChannelHistory} {block : List Int32}
    (hblock : block.length = s.blockSize) :
    s.settleBlock (h.withBlock block) =
      ChannelHistory.withBlock
        { h with
          context := (h.context ++ block).drop block.length
          means := h.meansAfter s.info.meanCount
            (ChannelHistory.meanOf block s.info.version s.bitshift) }
        (block.map fun x => Sample.shiftLeft x s.bitshift) := by
  rw [settleBlock, ← hblock]
  rw [ChannelHistory.pushMean_withBlock, ChannelHistory.carryOver_withBlock,
    ChannelHistory.shiftBlock_withBlock]

end Stream

end LosslessAudio
