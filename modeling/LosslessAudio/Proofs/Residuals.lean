import Mathlib.Algebra.Group.ForwardDiff
import Mathlib.Data.Rat.Floor
import LosslessAudio.Proofs.Context
import LosslessAudio.Proofs.Prediction
import LosslessAudio.Proofs.Row

/-!
# What is transmitted of a block

A writer sends of every sample by how much it differs from its prediction.  Here this is put
without a prediction: behind a polynomial predictor of order `n` stand the `n`-th backward
differences of the samples, behind a linear one what a weighted sum of the samples before it leaves
of each sample.

* `reads_residuals` — decoding these residuals gives the block, whatever block it is.
* `exists_residuals_eq_replicate` — a block that continues the polynomial its context lies on has
  nothing but zeros for residuals.
* `decodeBlock_inverts_residuals` — the two together, for the block that is decoded in place as
  well.
-/

set_option autoImplicit false

namespace LosslessAudio

/-! ## Differences -/

section

variable {α β : Type} [Sub α] [Sub β]

/-- By how much a sequence grows from one place to the next. -/
def difference (x : Int → α) (i : Int) : α :=
  x i - x (i - 1)

theorem iterate_difference_congr {x y : Int → α} {n : Nat} {i : Int}
    (h : ∀ j, i - n ≤ j → j ≤ i → x j = y j) : difference^[n] x i = difference^[n] y i := by
  induction n generalizing i with
  | zero => exact h i (by omega) (by omega)
  | succ n ih =>
    rw [Function.iterate_succ_apply', Function.iterate_succ_apply', difference, difference]
    rw [ih fun j hlow hhigh => h j (by omega) hhigh,
      ih fun j hlow hhigh => h j (by omega) (by omega)]

theorem map_iterate_difference {f : α → β} (hf : ∀ a b, f (a - b) = f a - f b) (x : Int → α)
    (n : Nat) (i : Int) : f (difference^[n] x i) = difference^[n] (f ∘ x) i := by
  induction n generalizing i with
  | zero => rfl
  | succ n ih =>
    rw [Function.iterate_succ_apply', Function.iterate_succ_apply', difference, difference, hf, ih,
      ih]

end

/-- Backward differences are forward ones of places further back. -/
theorem iterate_difference_eq_fwdDiff (f : ℚ → ℚ) (n : Nat) (i : Int) :
    difference^[n] (fun j : Int => f j) i = (fwdDiff 1)^[n] f (i - n) := by
  induction n generalizing i with
  | zero => simp
  | succ n ih =>
    have hplace : (i : ℚ) - (n + 1 : Nat) + 1 = i - n := by push_cast; ring
    have hbefore : ((i - 1 : Int) : ℚ) - n = i - (n + 1 : Nat) := by push_cast; ring
    rw [Function.iterate_succ_apply', Function.iterate_succ_apply', difference, fwdDiff, ih, ih,
      hplace, hbefore]

/-! ## Polynomials with whole values -/

section

open Polynomial

variable {f : ℚ[X]} {n : Nat}

/-- The value of a polynomial of degree below `n` is a combination of the `n` values before it. -/
theorem isInt_eval_of_before (hf : f.natDegree < n) {y : ℚ}
    (h : ∀ k < n, f.eval (y + k) ∈ (Int.castAddHom ℚ).range) :
    f.eval (y + n) ∈ (Int.castAddHom ℚ).range := by
  have hzero := congrFun (Polynomial.fwdDiff_iter_eq_zero_of_degree_lt hf) y
  rw [fwdDiff_iter_eq_sum_shift, Finset.sum_range_succ] at hzero
  simp only [nsmul_eq_mul, mul_one, Nat.sub_self, pow_zero, Nat.choose_self, Nat.cast_one,
    one_smul, Pi.zero_apply] at hzero
  rw [eq_neg_of_add_eq_zero_right hzero]
  exact neg_mem (sum_mem fun k hk => zsmul_mem (h k (Finset.mem_range.1 hk)) _)

/-- A polynomial of degree below `n` that takes `n` whole values in a row takes no others from
there on. -/
theorem isInt_eval (hf : f.natDegree < n)
    (h : ∀ k < n, f.eval ((k : ℚ) - n) ∈ (Int.castAddHom ℚ).range) (i : Nat) :
    f.eval ((i : ℚ) - n) ∈ (Int.castAddHom ℚ).range := by
  induction i using Nat.strong_induction_on with
  | _ i ih =>
    rcases Nat.lt_or_ge i n with hlt | hge
    · exact h i hlt
    · obtain ⟨m, rfl⟩ := Nat.exists_eq_add_of_le' hge
      have hplace (k : Nat) : ((m + k : Nat) : ℚ) - n = m - n + k := by push_cast; ring
      rw [hplace]
      refine isInt_eval_of_before hf fun k hk => ?_
      rw [← hplace]
      exact ih (m + k) (by omega)

/-- The `n`-th differences of a polynomial of degree below `n` are 0. -/
theorem iterate_difference_eq_zero (hf : f.natDegree < n) {z : Int → Int} {i : Int}
    (hz : ∀ j, i - n ≤ j → j ≤ i → (z j : ℚ) = f.eval (j : ℚ)) : difference^[n] z i = 0 := by
  have hcast := map_iterate_difference (f := fun a : Int => (a : ℚ)) Int.cast_sub z n i
  have hvalues : difference^[n] ((fun a : Int => (a : ℚ)) ∘ z) i =
      difference^[n] (fun j : Int => f.eval (j : ℚ)) i := iterate_difference_congr hz
  rw [hvalues, iterate_difference_eq_fwdDiff (fun y => f.eval y) n i,
    Polynomial.fwdDiff_iter_eq_zero_of_degree_lt hf] at hcast
  exact Int.cast_eq_zero.1 hcast

/-- At this place, the samples have the value of a polynomial, cut to 32 bits. -/
def LiesOn (f : ℚ[X]) (x : Int → Int32) (i : Int) : Prop :=
  ∃ z : Int, (z : ℚ) = f.eval (i : ℚ) ∧ x i = Int32.ofInt z

theorem LiesOn.eq_floor {x : Int → Int32} {i : Int} (h : LiesOn f x i) :
    (⌊f.eval (i : ℚ)⌋ : ℚ) = f.eval (i : ℚ) ∧ x i = Int32.ofInt ⌊f.eval (i : ℚ)⌋ := by
  obtain ⟨z, hz, hx⟩ := h
  rw [← hz, Int.floor_intCast]
  exact ⟨rfl, hx⟩

/-- Samples with the values of a polynomial of degree below `n` have no `n`-th differences. -/
theorem iterate_difference_of_liesOn (hf : f.natDegree < n) {x : Int → Int32} {i : Int}
    (hx : ∀ j, i - n ≤ j → j ≤ i → LiesOn f x j) : difference^[n] x i = 0 := by
  have hvalues : difference^[n] x i =
      difference^[n] (Int32.ofInt ∘ fun j : Int => ⌊f.eval (j : ℚ)⌋) i :=
    iterate_difference_congr fun j hlow hhigh => (hx j hlow hhigh).eq_floor.2
  rw [hvalues, ← map_iterate_difference (fun a b => Int32.ofInt_sub a b),
    iterate_difference_eq_zero hf fun j hlow hhigh => (hx j hlow hhigh).eq_floor.1]
  rfl

end

/-! ## Residuals -/

namespace ChannelHistory

/-- The samples of a history by their places: the block starts at 0, and the context ends there. -/
def signal (h : ChannelHistory) (i : Int) : Int32 :=
  (h.sample? i).getD 0

variable (h : ChannelHistory) (block : List Int32)

theorem signal_withBlock {i : Nat} (hi : i < block.length) :
    (h.withBlock block).signal i = block.getD i 0 := by
  have hplace : ((h.context.length : Int) + i).toNat = h.context.length + i := by omega
  rw [signal, sample?, context_withBlock, if_neg (by omega), hplace, samples, context_withBlock,
    List.getElem?_append_right (Nat.le_add_right _ _), Nat.add_sub_cancel_left, withBlock,
    List.getElem?_append_left hi, List.getD_eq_getElem?_getD]

/-- Another block leaves the context as it is. -/
theorem signal_withBlock_neg {j : Nat} (hj : j < h.context.length) :
    (h.withBlock block).signal (-1 - j) = h.signal (-1 - j) := by
  have hj' : j < (h.withBlock block).context.length := hj
  rw [signal, signal, sample?_neg h hj, sample?_neg _ hj', context_withBlock]

/-- The samples before a place, the last one first. -/
theorem signal_withBlock_before {i j : Nat} (hi : i ≤ block.length)
    (hj : j < h.context.length + i) :
    (h.withBlock block).signal (i - 1 - j) =
      ((block.take i).reverse ++ h.context.reverse).getD j 0 := by
  have hplace : ((h.context.length : Int) + (i - 1 - j)).toNat = h.context.length + i - 1 - j := by
    omega
  have hsplit : (h.withBlock block).samples =
      (h.context ++ block.take i) ++ (block.drop i ++ h.block.drop block.length) := by
    rw [List.append_assoc, ← List.append_assoc (block.take i), List.take_append_drop]
    rfl
  have hlength : (h.context ++ block.take i).length = h.context.length + i := by
    rw [List.length_append, List.length_take_of_le hi]
  rw [signal, sample?, context_withBlock, if_neg (by omega), hplace, hsplit,
    List.getElem?_append_left (by omega), ← List.reverse_append, List.getD_eq_getElem?_getD,
    List.getElem?_reverse (by omega), hlength]

end ChannelHistory

namespace Predictor

/-- What is transmitted of the sample at a place. -/
def residual (p : Predictor) (offset bias : Int32) (x : Int → Int32) (i : Int) : Int32 :=
  match p with
  | .fixed 0 => x i - offset
  | .fixed order => difference^[order] x i
  | .linear coefficients =>
    let y j := x j - offset
    let start := if coefficients = [] then offset else bias
    let sum := (coefficients.mapIdx fun j c => c * y (i - 1 - j)).sum
    y i - Sample.shiftRight (start + sum) precision

/-- What is transmitted of a block that follows the context of a history. -/
def residuals (p : Predictor) (offset bias : Int32) (h : ChannelHistory) (block : List Int32) :
    List Int32 :=
  (List.range block.length).map fun i : Nat =>
    p.residual offset bias (h.withBlock block).signal i

end Predictor

namespace Coding

variable {offset bias : Int32} {x : Int → Int32} {past : List Int32} {i : Int}

theorem weightedSum_eq_sum (weights : List Int32)
    (h : ∀ j < weights.length, past.getD j 0 = x (i - 1 - j)) :
    weightedSum offset weights past =
      (weights.mapIdx fun j c => c * (x (i - 1 - j) - offset)).sum := by
  induction weights generalizing past i with
  | nil => rfl
  | cons weight weights ih =>
    have hhead : past.headD 0 = x (i - 1) := by
      rw [headD_eq_getD, h 0 (Nat.zero_lt_succ _), Int.natCast_zero, Int.sub_zero]
    have htail : ∀ j < weights.length, past.tail.getD j 0 = x (i - 1 - 1 - j) := by
      intro j hj
      rw [getD_tail, h (j + 1) (Nat.succ_lt_succ hj)]
      congr 1
      omega
    rw [weightedSum, hhead, ih htail, List.mapIdx_cons, List.sum_cons]
    have hplace (j : Nat) : i - 1 - 1 - (j : Int) = i - 1 - ((j + 1 : Nat) : Int) := by omega
    simp only [hplace, Int.natCast_zero, Int.sub_zero]

/-- What a sample differs from its prediction by. -/
theorem sub_predict_eq_residual {c : Coding} (hc : c ≠ .zero)
    (h : ∀ j < c.predictor.order, past.getD j 0 = x (i - 1 - j)) :
    x i - c.predict offset bias past = c.predictor.residual offset bias x i := by
  match c with
  | .fixed 0 _ => rfl
  | .fixed 1 _ =>
    have h0 : past.getD 0 0 = x (i - 1 - 0) := h 0 (show 0 < 1 by decide)
    rw [predict, h0, Int.sub_zero]
    rfl
  | .fixed 2 _ =>
    have h0 : past.getD 0 0 = x (i - 1 - 0) := h 0 (show 0 < 2 by decide)
    have h1 : past.getD 1 0 = x (i - 1 - 1) := h 1 (show 1 < 2 by decide)
    show _ = x i - x (i - 1) - (x (i - 1) - x (i - 1 - 1))
    rw [predict, h0, h1, Int.sub_zero]
    grind
  | .fixed 3 _ =>
    have h0 : past.getD 0 0 = x (i - 1 - 0) := h 0 (show 0 < 3 by decide)
    have h1 : past.getD 1 0 = x (i - 1 - 1) := h 1 (show 1 < 3 by decide)
    have h2 : past.getD 2 0 = x (i - 1 - 2) := h 2 (show 2 < 3 by decide)
    show _ = x i - x (i - 1) - (x (i - 1) - x (i - 1 - 1)) -
      (x (i - 1) - x (i - 1 - 1) - (x (i - 1 - 1) - x (i - 1 - 1 - 1)))
    rw [predict, h0, h1, h2, Int.sub_zero, Int.sub_sub (i - 1) 1 1]
    grind
  | .linear [] _ =>
    show x i - (Sample.shiftRight offset Predictor.precision + offset) =
      x i - offset - Sample.shiftRight (offset + 0) Predictor.precision
    rw [Int32.add_zero]
    grind
  | .linear (weight :: weights) _ =>
    show x i - (Sample.shiftRight (bias + weightedSum offset (weight :: weights) past)
      Predictor.precision + offset) = _
    rw [weightedSum_eq_sum (weight :: weights) h, predictor, Predictor.residual]
    simp only [if_neg (List.cons_ne_nil weight weights)]
    grind

theorem residuals_eq_map (c : Coding) (past block : List Int32) :
    c.residuals offset bias past block = (List.range block.length).map fun i =>
      block.getD i 0 - c.predict offset bias ((block.take i).reverse ++ past) := by
  induction block generalizing past with
  | nil => rfl
  | cons x block ih =>
    rw [residuals, ih, List.length_cons, List.range_succ_eq_map, List.map_cons, List.map_map]
    simp [Function.comp_def]

/-- **The residuals of a coding are those of its predictor.** -/
theorem residuals_eq {c : Coding} (hc : c ≠ .zero) {h : ChannelHistory}
    (horder : c.predictor.order ≤ h.context.length) (block : List Int32) :
    c.residuals offset bias h.context.reverse block =
      c.predictor.residuals offset bias h block := by
  rw [residuals_eq_map, Predictor.residuals]
  refine List.map_congr_left fun i hi => ?_
  rw [List.mem_range] at hi
  rw [← h.signal_withBlock block hi]
  refine sub_predict_eq_residual hc fun j hj => ?_
  rw [h.signal_withBlock_before block (Nat.le_of_lt hi) (by omega)]

end Coding

namespace Predictor

/-- Every predictor belongs to a coding that transmits residuals. -/
theorem exists_coding (p : Predictor) : ∃ c : Coding, c ≠ .zero ∧ c.predictor = p := by
  cases p with
  | fixed order => exact ⟨.fixed order 0, by rintro ⟨⟩, rfl⟩
  | linear coefficients => exact ⟨.linear coefficients 0, by rintro ⟨⟩, rfl⟩

/-- A history behind the decoding of a block; a linear predictor leaves the context without the
offset. -/
def afterBlock (p : Predictor) (offset : Int32) (h : ChannelHistory) (block : List Int32) :
    ChannelHistory :=
  { h with context := p.removeOffset offset h.context }.withBlock block

variable {p : Predictor} {offset bias parameter : Int32} {h : ChannelHistory}

/-- **Decoding the residuals of a block gives the block.** -/
theorem reads_residuals (horder : p.order ≤ h.context.length) (hlow : -1 ≤ parameter.toInt)
    (hhigh : parameter.toInt ≤ 30) (block : List Int32) :
    Reads (fun r => p.decodeBlock h block.length parameter offset bias r)
      ((p.residuals offset bias h block).flatMap (Code.signed (parameter.toInt + 1).toNat))
      (p.afterBlock offset h block) := by
  obtain ⟨c, hc, rfl⟩ := p.exists_coding
  have hpast : Sees h.context.length 0 h.context.reverse h.context.reverse := by
    intro j hj
    have hlength : j < h.context.reverse.length := by rwa [List.length_reverse]
    rw [Int32.sub_zero, List.getD_eq_getElem?_getD, List.getElem?_eq_getElem hlength,
      Option.getD_some]
  have hreads :=
    reads_decodeBlock offset bias hc (Rice.signedBits_le hlow hhigh) horder hpast block
  rwa [Coding.residuals_eq hc horder, Rice.signedBits_of_le hlow hhigh] at hreads

/-- Behind the codes of these residuals, this block is decoded in front of the old one, and nothing
else is read. -/
structure Decodes (p : Predictor) (h : ChannelHistory) (parameter offset bias : Int32)
    (residuals block : List Int32) : Prop where
  reads : Reads (fun r => p.decodeBlock h block.length parameter offset bias r)
    (residuals.flatMap (Code.signed (parameter.toInt + 1).toNat)) (p.afterBlock offset h block)
  current : (p.afterBlock offset h block).current block.length = block
  /-- A decoder that works in place does the same. -/
  inPlace : ∀ place rest,
    let code := residuals.flatMap (Code.signed (parameter.toInt + 1).toNat)
    p.decodeBlock? h.row block.length parameter offset bias ⟨place, code ++ rest⟩ =
      some (.ok ⟨place + code.length, rest⟩, (p.afterBlock offset h block).row)

theorem decodes_residuals (offset bias : Int32) (horder : p.order ≤ h.context.length)
    (hlow : -1 ≤ parameter.toInt) (hhigh : parameter.toInt ≤ 30) {block : List Int32}
    (hblock : block.length ≤ h.block.length) :
    p.Decodes h parameter offset bias (p.residuals offset bias h block) block where
  reads := reads_residuals horder hlow hhigh block
  current := ChannelHistory.current_withBlock _ block
  inPlace place rest :=
    decodeBlock?_of_ok horder hblock (reads_residuals horder hlow hhigh block place rest)

/-! ## Blocks on a polynomial -/

open Polynomial

variable {order : Fin 4} {f : ℚ[X]}

theorem residual_of_liesOn (hf : f.natDegree < order) {x : Int → Int32} {i : Int}
    (hx : ∀ j, i - order ≤ j → j ≤ i → LiesOn f x j) :
    (fixed order).residual offset bias x i = 0 := by
  rw [← iterate_difference_of_liesOn hf hx]
  match order with
  | 0 => exact absurd hf (Nat.not_lt_zero _)
  | 1 | 2 | 3 => rfl

/-- A polynomial that goes through the end of the context goes on in whole numbers. -/
theorem floor_eval_of_context (hf : f.natDegree < order)
    (hcontext : ∀ j < order.val, LiesOn f h.signal (-1 - j)) (i : Nat) :
    (⌊f.eval (i : ℚ)⌋ : ℚ) = f.eval (i : ℚ) := by
  have hwhole := isInt_eval hf (fun k hk => ?_) (i + order)
  · obtain ⟨z, hz⟩ := hwhole
    rw [Nat.cast_add, add_sub_cancel_right] at hz
    rw [← hz]
    simp
  · obtain ⟨z, hz, -⟩ := hcontext (order - 1 - k) (by omega)
    have hplace : ((-1 - ((order.val - 1 - k : Nat) : Int) : Int) : ℚ) = (k : ℚ) - order.val := by
      rw [show -1 - ((order.val - 1 - k : Nat) : Int) = (k : Int) - order.val by omega]
      push_cast
      rfl
    rw [hplace] at hz
    exact ⟨z, hz⟩

/-- **What continues the polynomial of a context has nothing but zeros for residuals.** -/
theorem exists_residuals_eq_replicate (offset bias : Int32) (hf : f.natDegree < order)
    (horder : order ≤ h.context.length) (hcontext : ∀ j < order.val, LiesOn f h.signal (-1 - j))
    (n : Nat) :
    ∃ block, block.length = n ∧
      (fixed order).residuals offset bias h block = List.replicate n 0 ∧
      ∀ h' : ChannelHistory, ∀ i : Nat, i < n → LiesOn f (h'.withBlock block).signal i := by
  let block := (List.range n).map fun i : Nat => Int32.ofInt ⌊f.eval (i : ℚ)⌋
  have hlength : block.length = n := by simp [block]
  have hliesOn (h' : ChannelHistory) (i : Nat) (hi : i < n) :
      LiesOn f (h'.withBlock block).signal i := by
    refine ⟨⌊f.eval (i : ℚ)⌋, floor_eval_of_context hf hcontext i, ?_⟩
    rw [h'.signal_withBlock block (hlength.symm ▸ hi)]
    simp [block, hi]
  have hbefore (j : Nat) (hj : j < order.val) : LiesOn f (h.withBlock block).signal (-1 - j) := by
    obtain ⟨z, hz, hx⟩ := hcontext j hj
    exact ⟨z, hz, (h.signal_withBlock_neg block (by omega)).trans hx⟩
  refine ⟨block, hlength, ?_, hliesOn⟩
  rw [residuals, hlength, List.eq_replicate_iff]
  refine ⟨by simp, fun y hy => ?_⟩
  obtain ⟨i, hi, rfl⟩ := List.mem_map.1 hy
  rw [List.mem_range] at hi
  refine residual_of_liesOn hf fun j hlow hhigh => ?_
  rcases Int.lt_or_le j 0 with hneg | hpos
  · obtain ⟨k, rfl⟩ : ∃ k : Nat, j = -1 - k := ⟨(-1 - j).toNat, by omega⟩
    exact hbefore k (by omega)
  · obtain ⟨k, rfl⟩ := Int.eq_ofNat_of_zero_le hpos
    exact hliesOn h k (by omega)

/-- **Decoding inverts prediction.**  The residuals of a block, whatever block it is, are decoded to
the block.  In particular, where the context lies on a polynomial of a degree below the order of a
fixed predictor, zeros are decoded to as many further samples of the polynomial as there are
zeros. -/
theorem decodeBlock_inverts_residuals (offset bias : Int32) (horder : p.order ≤ h.context.length)
    (hlow : -1 ≤ parameter.toInt) (hhigh : parameter.toInt ≤ 30) :
    (∀ block, block.length ≤ h.block.length →
      p.Decodes h parameter offset bias (p.residuals offset bias h block) block) ∧
    ∀ (order : Fin 4) (f : ℚ[X]), p = .fixed order → f.natDegree < order →
      (∀ j < order.val, LiesOn f h.signal (-1 - j)) → ∀ n ≤ h.block.length,
        ∃ block, p.Decodes h parameter offset bias (List.replicate n 0) block ∧
          block.length = n ∧
          ∀ i : Nat, i < n → LiesOn f (p.afterBlock offset h block).signal i := by
  refine ⟨fun block hblock => decodes_residuals offset bias horder hlow hhigh hblock, ?_⟩
  rintro order f rfl hf hcontext n hn
  have horder' : order ≤ h.context.length := by
    rwa [← Coding.order_fixed order 0]
  obtain ⟨block, hlength, hzeros, hliesOn⟩ :=
    exists_residuals_eq_replicate offset bias hf horder' hcontext n
  have hdecodes := decodes_residuals offset bias horder hlow hhigh (hlength.symm ▸ hn)
  rw [hzeros] at hdecodes
  exact ⟨block, hdecodes, hlength, fun i hi => hliesOn _ i hi⟩

/-- A history whose context are the squares of 1, 2 and 3. -/
def squares : ChannelHistory :=
  ⟨[1, 4, 9], [0, 0, 0, 0], [0]⟩

theorem decodeBlock_inverts_residuals_squares :
    (fixed 3).order ≤ squares.context.length ∧ -1 ≤ (2 : Int32).toInt ∧ (2 : Int32).toInt ≤ 30 ∧
      (fixed 3).Decodes squares 2 5 7 ((fixed 3).residuals 5 7 squares [1, -2, 2147483647])
        [1, -2, 2147483647] ∧
      ((X + C 4) ^ 2 : ℚ[X]).natDegree < (3 : Fin 4) ∧
      (∀ j < (3 : Fin 4).val, LiesOn ((X + C 4) ^ 2) squares.signal (-1 - j)) ∧
      ∃ block, (fixed 3).Decodes squares 2 5 7 (List.replicate 4 0) block ∧ block.length = 4 ∧
        ∀ i : Nat, i < 4 →
          LiesOn ((X + C 4) ^ 2) ((fixed 3).afterBlock 5 squares block).signal i := by
  have hdegree : ((X + C 4) ^ 2 : ℚ[X]).natDegree < (3 : Fin 4) := by
    rw [natDegree_pow, natDegree_X_add_C]
    decide
  have hcontext : ∀ j < (3 : Fin 4).val, LiesOn ((X + C 4) ^ 2) squares.signal (-1 - j) := by
    intro j hj
    refine ⟨(3 - j) ^ 2, ?_, ?_⟩
    · simp
      ring
    · revert j
      decide
  have horder : (fixed 3).order ≤ squares.context.length := by decide
  have hlow : -1 ≤ (2 : Int32).toInt := by decide
  obtain ⟨hblocks, hzeros⟩ := decodeBlock_inverts_residuals 5 7 horder hlow (by decide)
  exact ⟨horder, hlow, by decide, hblocks _ (by decide), hdegree, hcontext,
    hzeros 3 ((X + C 4) ^ 2) rfl hdegree hcontext 4 (by decide)⟩

example : (fixed 3).residuals 0 0 squares [16, 25, 36, 49] = [0, 0, 0, 0] := by decide

/-- A linear predictor that repeats the last sample, with the offset taken off. -/
example : (linear [32]).residuals 10 0 ⟨[0, 0, 50], [0, 0, 0], [0]⟩ [51, 53, 50] = [1, 2, -3] := by
  decide

end Predictor

end LosslessAudio
