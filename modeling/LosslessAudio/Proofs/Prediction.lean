import LosslessAudio.Proofs.Blocks
import LosslessAudio.Proofs.Encoder

/-!
# Prediction, undone

The decoder predicts from a context of fixed length, which it changes in place where a linear
predictor works without the offset; the writer predicts from all earlier samples.  This file shows
that the two predict the same (`predict_eq`), sample by sample, so that the residuals of the one
are undone by the other: `reads_decodeBlock` for one block, `reads_readBlock` for all that stands
behind the command code.
-/

set_option autoImplicit false

namespace LosslessAudio

/-! ## Seeing the past -/

/-- The last `order` samples of `past` stand in front of `seen`, with `removed` taken off.  Before
the start of the stream there are zeros. -/
def Sees (order : Nat) (removed : Int32) (seen past : List Int32) : Prop :=
  ∀ j < order, seen[j]? = some (past.getD j 0 - removed)

theorem Sees.cons {order : Nat} {removed : Int32} {seen past : List Int32}
    (h : Sees order removed seen past) (x : Int32) :
    Sees order removed ((x - removed) :: seen) (x :: past) := by
  intro j hj
  cases j with
  | zero => rfl
  | succ j => exact h j (by omega)

theorem Sees.uncons {order : Nat} {removed : Int32} {seen past : List Int32}
    (h : Sees (order + 1) removed seen past) :
    ∃ seen', seen = (past.headD 0 - removed) :: seen' ∧ Sees order removed seen' past.tail := by
  have hhead := h 0 (by omega)
  cases seen with
  | nil => cases hhead
  | cons y seen' =>
    rw [List.getElem?_cons_zero, Option.some.injEq] at hhead
    refine ⟨seen', ?_, fun j hj => ?_⟩
    · cases past <;> exact congrArg (· :: seen') hhead
    · have hj := h (j + 1) (by omega)
      cases past <;> exact hj

/-! ## One prediction -/

namespace Coding

/-- The predictor that undoes a coding; zeros need none, and get one that looks at nothing. -/
def predictor : Coding → Predictor
  | .zero => .linear []
  | .fixed order _ => .fixed order
  | .linear coefficients _ => .linear coefficients

theorem command_ne_zero {c : Coding} (hc : c ≠ .zero) : c.command ≠ .zero := by
  match c with
  | .zero => exact absurd rfl hc
  | .fixed 0 _ | .fixed 1 _ | .fixed 2 _ | .fixed 3 _ | .linear _ _ => rintro ⟨⟩

theorem order_fixed (order : Fin 4) (parameter : Nat) :
    (fixed order parameter).predictor.order = order := by
  match order with
  | 0 | 1 | 2 | 3 => rfl

theorem foldl_weights (weights : List Int32) {offset : Int32} {seen past : List Int32}
    (h : Sees weights.length offset seen past) (start : Int32) :
    (List.zipWith (· * ·) weights seen).foldl (· + ·) start =
      start + weightedSum offset weights past := by
  induction weights generalizing seen past start with
  | nil => rw [List.zipWith_nil_left, weightedSum, Int32.add_zero]; rfl
  | cons weight weights ih =>
    obtain ⟨seen', rfl, h'⟩ := h.uncons
    rw [List.zipWith_cons_cons, List.foldl_cons, ih h', weightedSum, Int32.add_assoc]

theorem headD_eq_getD (past : List Int32) : past.headD 0 = past.getD 0 0 := by
  cases past <;> rfl

theorem getD_tail (past : List Int32) (j : Nat) : past.tail.getD j 0 = past.getD (j + 1) 0 := by
  cases past <;> rfl

/-- **Decoder and writer predict the same.** -/
theorem predict_eq {c : Coding} {offset bias : Int32} {seen past : List Int32} (hc : c ≠ .zero)
    (h : Sees c.predictor.order (c.predictor.removedOffset offset) seen past) :
    c.predictor.predict (c.predictor.base offset bias) seen + c.predictor.removedOffset offset =
      c.predict offset bias past := by
  match c with
  | .fixed 0 _ =>
    show Sample.shiftRight offset 0 + 0 = offset
    rw [Sample.shiftRight_zero, Int32.add_zero]
  | .fixed 1 _ =>
    have hsum := foldl_weights [1] h 0
    show Sample.shiftRight ((List.zipWith (· * ·) [1] seen).foldl (· + ·) 0) 0 + 0 = _
    rw [hsum, Sample.shiftRight_zero, predict]
    simp only [weightedSum, Predictor.removedOffset, predictor, headD_eq_getD]
    grind
  | .fixed 2 _ =>
    have hsum := foldl_weights [2, -1] h 0
    show Sample.shiftRight ((List.zipWith (· * ·) [2, -1] seen).foldl (· + ·) 0) 0 + 0 = _
    rw [hsum, Sample.shiftRight_zero, predict]
    simp only [weightedSum, Predictor.removedOffset, predictor, headD_eq_getD, getD_tail]
    grind
  | .fixed 3 _ =>
    have hsum := foldl_weights [3, -3, 1] h 0
    show Sample.shiftRight ((List.zipWith (· * ·) [3, -3, 1] seen).foldl (· + ·) 0) 0 + 0 = _
    rw [hsum, Sample.shiftRight_zero, predict]
    simp only [weightedSum, Predictor.removedOffset, predictor, headD_eq_getD, getD_tail]
    grind
  | .linear [] _ => rfl
  | .linear (weight :: weights) _ =>
    have hsum := foldl_weights (weight :: weights) h bias
    show Sample.shiftRight ((List.zipWith (· * ·) (weight :: weights) seen).foldl (· + ·) bias)
      Predictor.precision + offset = _
    rw [hsum]
    rfl

end Coding

/-! ## One block -/

namespace Predictor

open Coding

theorem reads_extend {c : Coding} {offset parameter : Int32} (bias : Int32) (hc : c ≠ .zero)
    (hk : Rice.signedBits parameter ≤ Rice.maxParameter) {seen past : List Int32}
    (h : Sees c.predictor.order (c.predictor.removedOffset offset) seen past) (block : List Int32) :
    Reads (fun r => c.predictor.extend (c.predictor.base offset bias) parameter r seen block.length)
      ((c.residuals offset bias past block).flatMap (Code.signed (Rice.signedBits parameter)))
      ((block.map (· - c.predictor.removedOffset offset)).reverse ++ seen) := by
  induction block generalizing seen past with
  | nil => exact Reads.pure _
  | cons x block ih =>
    have hx : x - c.predict offset bias past +
        c.predictor.predict (c.predictor.base offset bias) seen =
          x - c.predictor.removedOffset offset := by
      rw [← predict_eq hc h]
      grind
    rw [residuals, List.flatMap_cons]
    refine (BitReader.reads_signedRice hk _).bind ?_
    dsimp only
    rw [hx, List.map_cons, List.reverse_cons, List.append_assoc]
    exact ih (h.cons x)

/-- What a context shows to a predictor that does not look behind it. -/
theorem sees_removeOffset {p : Predictor} (offset : Int32) {context past : List Int32}
    (horder : p.order ≤ context.length) (h : Sees context.length 0 context.reverse past) :
    Sees p.order (p.removedOffset offset) (p.removeOffset offset context).reverse past := by
  intro j hj
  have hlen : j < ((context.reverse.take p.order).map (· - p.removedOffset offset)).length := by
    rw [List.length_map, List.length_take, List.length_reverse]
    omega
  rw [reverse_removeOffset, List.getElem?_append_left hlen, List.getElem?_map,
    List.getElem?_take_of_lt hj, h j (by omega), Option.map_some, Int32.sub_zero]

/-- **The residuals of a block give back the block.** -/
theorem reads_decodeBlock {c : Coding} {parameter : Int32} (offset bias : Int32) (hc : c ≠ .zero)
    (hk : Rice.signedBits parameter ≤ Rice.maxParameter) {h : ChannelHistory} {past : List Int32}
    (horder : c.predictor.order ≤ h.context.length)
    (hpast : Sees h.context.length 0 h.context.reverse past) (block : List Int32) :
    Reads (fun r => c.predictor.decodeBlock h block.length parameter offset bias r)
      ((c.residuals offset bias past block).flatMap (Code.signed (Rice.signedBits parameter)))
      ({ h with context := c.predictor.removeOffset offset h.context }.withBlock block) := by
  have hlen := length_removeOffset c.predictor offset h.context
  have hextend := reads_extend bias hc hk (sees_removeOffset offset horder hpast) block
  have hblock (seen : List Int32) :
      ((((block.map (· - c.predictor.removedOffset offset)).reverse ++ seen).take
        block.length).reverse.map (· + c.predictor.removedOffset offset)) = block := by
    rw [List.take_left' (by rw [List.length_reverse, List.length_map]), List.reverse_reverse,
      List.map_map]
    refine (List.map_congr_left fun x _ => ?_).trans (List.map_id block)
    exact Int32.sub_add_cancel x _
  have h' := hextend.map fun past =>
    { h with context := c.predictor.removeOffset offset h.context }.withBlock
      ((past.take block.length).reverse.map (· + c.predictor.removedOffset offset))
  rw [hblock] at h'
  exact h'

/-- The predictor of a block, behind its command code. -/
theorem reads_read {c : Coding} {version : UInt8} {kept : Nat} {block : List Int32}
    (hkept : kept < 2 ^ 32) (hfits : c.Fits version kept block) (hc : c ≠ .zero) :
    Reads (fun r => Predictor.read c.command kept r) c.predictorCode c.predictor := by
  match c with
  | .zero => exact absurd rfl hc
  | .fixed 0 _ => exact Reads.pure _
  | .fixed 1 _ => exact Reads.pure _
  | .fixed 2 _ => exact Reads.pure _
  | .fixed 3 _ => exact Reads.pure _
  | .linear coefficients _ =>
    obtain ⟨-, horder⟩ := hfits
    have hnat : (UInt32.ofNat coefficients.length).toNat = coefficients.length :=
      UInt32.toNat_ofNat_of_lt' (Nat.lt_of_le_of_lt horder hkept)
    refine (BitReader.reads_rice (by decide) coefficients.length).lift.bind ?_
    refine .check (by rw [hnat]; exact horder) ?_
    dsimp only
    rw [hnat]
    exact (BitReader.reads_signedRiceMany (by decide) coefficients).lift.map Predictor.linear

end Predictor

namespace Stream

/-- The number of remainder bits that a transmitted parameter leads to. -/
theorem signedBits_of_parameter {version : UInt8} {parameter : Nat}
    (h : Coding.remainderBits version parameter ≤ Rice.maxParameter) :
    Rice.signedBits (if version = 0 then (UInt32.ofNat parameter).toInt32 - 1
      else (UInt32.ofNat parameter).toInt32) = Coding.remainderBits version parameter := by
  rw [Coding.remainderBits, Rice.maxParameter] at h
  have hint : (Int32.ofNat parameter).toInt = parameter :=
    Int32.toInt_ofNat_of_lt (by split at h <;> omega)
  rw [Coding.remainderBits, UInt32.toInt32_ofNat']
  split at h
  · rename_i hv
    have hless : (Int32.ofNat parameter - 1).toInt = parameter - 1 := by
      rw [Int32.toInt_sub, hint, show (1 : Int32).toInt = 1 from rfl,
        Int.bmod_eq_of_le (by omega) (by omega)]
    rw [if_pos hv, if_pos hv, Rice.signedBits_of_le (by omega) (by omega), hless]
    omega
  · rename_i hv
    rw [if_neg hv, if_neg hv, Rice.signedBits_of_le (by omega) (by omega), hint]
    omega

theorem reads_readResidualParameter (version : UInt8) (parameter : Nat) :
    Reads (fun r => readResidualParameter version r) (Code.rice residualParameter parameter)
      (if version = 0 then (UInt32.ofNat parameter).toInt32 - 1
        else (UInt32.ofNat parameter).toInt32) :=
  (BitReader.reads_rice (by decide) parameter).map fun v =>
    if version = 0 then v.toInt32 - 1 else v.toInt32

section

variable {e : Encoder} {s : Stream} {h : ChannelHistory} {coding : Coding} {block : List Int32}

theorem reads_coded (parameter : Nat) (hc : coding ≠ .zero) (hinfo : s.info = e.info)
    (hblock : block.length = s.blockSize) (hkept : s.info.contextLength < 2 ^ 32)
    (hpast : Sees h.context.length 0 h.context.reverse (e.past e.turn))
    (hoffset : h.offset s.info.version s.info.meanCount s.bitshift = e.offset)
    (hfits : coding.Fits s.info.version s.info.contextLength block)
    (hk : Coding.remainderBits s.info.version parameter ≤ Rice.maxParameter)
    (horder : coding.predictor.order ≤ h.context.length) :
    Reads (fun r => s.readBlock coding.command h r)
      (Code.rice residualParameter parameter ++
        (coding.predictorCode ++ e.residualCode coding parameter block))
      ({ h with context := coding.predictor.removeOffset e.offset h.context }.withBlock block) := by
  have hbits := signedBits_of_parameter hk
  simp only [readBlock, if_neg (Coding.command_ne_zero hc), hoffset]
  refine (reads_readResidualParameter s.info.version parameter).lift.bind ?_
  dsimp only
  refine (Predictor.reads_read hkept hfits hc).bind ?_
  dsimp only
  have hdecode := Predictor.reads_decodeBlock e.offset s.info.predictionBias hc
    (hbits.symm ▸ hk) horder hpast block
  rw [hbits, hblock] at hdecode
  rw [Encoder.residualCode, ← hinfo]
  exact hdecode.lift

/-- **What stands behind the command code of a block gives back the block.**  The context may have
changed, but it is used for this block only. -/
theorem reads_readBlock (hinfo : s.info = e.info) (hblock : block.length = s.blockSize)
    (hcontext : h.context.length = s.info.contextLength) (hkept : s.info.contextLength < 2 ^ 32)
    (hminimal : StreamInfo.minimalContext ≤ s.info.contextLength)
    (hpast : Sees h.context.length 0 h.context.reverse (e.past e.turn))
    (hoffset : h.offset s.info.version s.info.meanCount s.bitshift = e.offset)
    (hfits : coding.Fits s.info.version s.info.contextLength block) :
    ∃ history : ChannelHistory, history.context.length = h.context.length ∧
      history.means = h.means ∧ Reads (fun r => s.readBlock coding.command h r)
        (e.blockBody coding block) (history.withBlock block) := by
  match coding with
  | .zero =>
    refine ⟨h, rfl, rfl, ?_⟩
    have hzeros : List.replicate s.blockSize 0 = block := by
      rw [← hblock]
      exact (List.eq_replicate_iff.2 ⟨rfl, hfits⟩).symm
    simp only [readBlock, Coding.command, if_pos, hzeros]
    exact Reads.pure _
  | .fixed order parameter =>
    have hc : Coding.fixed order parameter ≠ .zero := by rintro ⟨⟩
    have hread := reads_coded parameter hc hinfo hblock hkept hpast hoffset hfits hfits ?_
    · exact ⟨{ h with context := _ }, Predictor.length_removeOffset _ _ _, rfl, hread⟩
    rw [hcontext, Coding.order_fixed]
    exact Nat.le_trans (Nat.le_of_lt_succ order.isLt) hminimal
  | .linear coefficients parameter =>
    have hc : Coding.linear coefficients parameter ≠ .zero := by rintro ⟨⟩
    have hread := reads_coded parameter hc hinfo hblock hkept hpast hoffset hfits hfits.1 ?_
    · exact ⟨{ h with context := _ }, Predictor.length_removeOffset _ _ _, rfl, hread⟩
    rw [hcontext]
    exact hfits.2

end

end Stream

end LosslessAudio
