import Mathlib.Algebra.Group.Nat.Defs
import LosslessAudio.Bits.Rice
import LosslessAudio.Fault

/-!
# Writing numbers

The codes of the format from the writing side, as its description puts them: a Rice code is a
quotient in zeros, a one and a remainder of `k` bits; signed numbers are folded onto the unsigned
ones; an adaptive number comes with its own parameter.

`Reads read code a` says that `read` takes exactly the bits `code` and answers `a`, whatever
follows; `reads_rice` and its companions say that of every code here.
-/

set_option autoImplicit false

namespace LosslessAudio

namespace Code

/-- The `k` lowest bits of a number, the most significant one first. -/
def digits : Nat → Nat → List Bool
  | 0, _ => []
  | k + 1, n => digits k (n / 2) ++ [decide (n % 2 = 1)]

/-- The Rice code of a number with parameter `k`. -/
def rice (k n : Nat) : List Bool :=
  List.replicate (n / 2 ^ k) false ++ true :: digits k n

/-- The unsigned number that stands for a signed one. -/
def fold (x : Int32) : Nat :=
  if 0 ≤ x.toInt then (2 * x.toInt).toNat else (-2 * x.toInt - 1).toNat

/-- The code of a signed number with `k` remainder bits. -/
def signed (k : Nat) (x : Int32) : List Bool :=
  rice k (fold x)

/-- The code of an adaptive number; `k` is the parameter that is transmitted with it, which version
0 does not do. -/
def adaptive (version : UInt8) (hint k n : Nat) : List Bool :=
  if version = 0 then rice hint n else rice Rice.adaptiveParameter k ++ rice k n

@[simp] theorem length_digits (k n : Nat) : (digits k n).length = k := by
  induction k generalizing n with
  | zero => rfl
  | succ k ih => rw [digits, List.length_append, ih]; rfl

/-- Of a number that is too large its low bits are written. -/
theorem toNat_digits (k n : Nat) : Bits.toNat (digits k n) = n % 2 ^ k := by
  induction k generalizing n with
  | zero => rw [Nat.pow_zero, Nat.mod_one]; rfl
  | succ k ih =>
    have hlast : (decide (n % 2 = 1)).toNat = n % 2 := by
      rcases Nat.mod_two_eq_zero_or_one n with h | h <;> rw [h] <;> rfl
    rw [digits, Bits.toNat, List.foldl_append]
    show 2 * Bits.toNat (digits k (n / 2)) + (decide (n % 2 = 1)).toNat = _
    rw [ih, hlast, Nat.pow_succ, Nat.mul_comm (2 ^ k), Nat.mod_mul, Nat.add_comm]

theorem length_rice (k n : Nat) : (rice k n).length = n / 2 ^ k + 1 + k := by
  simp [rice, Nat.add_assoc, Nat.add_comm k 1]

theorem length_rice_pos (k n : Nat) : 0 < (rice k n).length := by
  rw [length_rice]
  exact Nat.lt_of_lt_of_le (Nat.succ_pos _) (Nat.le_add_right _ _)

theorem length_adaptive_pos (version : UInt8) (hint k n : Nat) :
    0 < (adaptive version hint k n).length := by
  rw [adaptive]
  split
  · exact length_rice_pos hint n
  · rw [List.length_append]
    exact Nat.lt_of_lt_of_le (length_rice_pos _ k) (Nat.le_add_right _ _)

end Code

namespace Rice

variable {k : Int32}

/-- One remainder bit more than the parameter says, where no limit interferes. -/
theorem signedBits_of_le (hlow : -1 ≤ k.toInt) (hhigh : k.toInt ≤ 30) :
    signedBits k = (k.toInt + 1).toNat := by
  have hmax : Int32.maxValue.toInt = 2 ^ 31 - 1 := rfl
  rw [signedBits, hmax, Int.min_eq_left (by omega)]

theorem signedBits_le (hlow : -1 ≤ k.toInt) (hhigh : k.toInt ≤ 30) :
    signedBits k ≤ maxParameter := by
  rw [signedBits_of_le hlow hhigh, maxParameter]
  omega

end Rice

/-! ## Reading back -/

section

variable {ε α β : Type}

/-- `read` takes exactly the bits `code`, wherever they stand and whatever follows them, and answers
`a`. -/
def Reads (read : BitReader → Except ε (α × BitReader)) (code : List Bool) (a : α) : Prop :=
  ∀ p rest, read ⟨p, code ++ rest⟩ = .ok (a, ⟨p + code.length, rest⟩)

namespace Reads

theorem pure (a : α) : Reads (ε := ε) (fun r => .ok (a, r)) [] a :=
  fun _ _ => rfl

/-- One code behind the other. -/
theorem bind {read : BitReader → Except ε (α × BitReader)}
    {f : α × BitReader → Except ε (β × BitReader)} {code code' : List Bool} {a : α} {b : β}
    (hread : Reads read code a) (hf : Reads (fun r => f (a, r)) code' b) :
    Reads (fun r => read r >>= f) (code ++ code') b := by
  intro p rest
  dsimp only
  rw [List.append_assoc, hread, ok_bind, List.length_append, ← Nat.add_assoc]
  exact hf _ rest

/-- What becomes of an answer does not change what was read for it. -/
theorem map {read : BitReader → Except ε (α × BitReader)} {code : List Bool} {a : α}
    (hread : Reads read code a) (f : α → β) :
    Reads (fun r => read r >>= fun x => .ok (f x.1, x.2)) code (f a) := by
  intro p rest
  dsimp only
  rw [hread, ok_bind]

/-- A check that is passed reads nothing. -/
theorem check {condition : Prop} {dec : BitReader → Decidable condition} {cause : ε}
    {read : BitReader → Except ε (α × BitReader)} {code : List Bool} {a : α} (hc : condition)
    (hread : Reads read code a) :
    Reads (fun r => @ensure ε condition (dec r) cause >>= fun _ => read r) code a := by
  intro p rest
  dsimp only
  rw [ensure, if_pos hc, ok_bind, hread]

theorem lift {read : BitReader → Except ReadFault (α × BitReader)} {code : List Bool} {a : α}
    (hread : Reads read code a) :
    Reads (fun r => (liftM (read r) : Except Fault (α × BitReader))) code a :=
  fun p rest => lift_read_eq_ok.2 (hread p rest)

end Reads

end

namespace BitReader

theorem reads_unary (q : Nat) : Reads (fun r => r.unary) (List.replicate q false ++ [true]) q := by
  intro p rest
  have htake : (List.replicate q false ++ [true] ++ rest).takeWhile (!·) =
      List.replicate q false := by
    induction q with
    | zero => rfl
    | succ q ih => simp [List.replicate_succ]
  have hdrop : (List.replicate q false ++ [true] ++ rest).dropWhile (!·) = true :: rest := by
    induction q with
    | zero => rfl
    | succ q ih => simp [List.replicate_succ]
  dsimp only
  rw [unary]
  dsimp only
  rw [hdrop, htake, List.length_replicate, List.length_append, List.length_replicate]
  rfl

/-- Digits are read back, but for those that did not fit. -/
theorem reads_bits (k n : Nat) : Reads (fun r => r.bits k) (Code.digits k n) (n % 2 ^ k) := by
  intro p rest
  have htake : (Code.digits k n ++ rest).take k = Code.digits k n :=
    List.take_left' (Code.length_digits k n)
  have hdrop : (Code.digits k n ++ rest).drop k = rest :=
    List.drop_left' (Code.length_digits k n)
  dsimp only
  rw [bits]
  dsimp only
  rw [htake, if_pos (Code.length_digits k n), Code.toNat_digits, advance, hdrop,
    Code.length_digits]

/-- The code of a number of any size is read back, up to what 32 bits hold. -/
theorem reads_rice {k : Nat} (hk : k ≤ Rice.maxParameter) (n : Nat) :
    Reads (fun r => r.rice k) (Code.rice k n) (UInt32.ofNat n) := by
  have hvalue : Rice.value k (n / 2 ^ k) (n % 2 ^ k) = UInt32.ofNat n := by
    rw [Rice.value, Nat.shiftLeft_eq, Nat.mul_comm, Nat.div_add_mod]
  have hcode : Code.rice k n =
      (List.replicate (n / 2 ^ k) false ++ [true]) ++ Code.digits k n := by
    rw [Code.rice, List.append_assoc]
    rfl
  have h := (reads_unary (n / 2 ^ k)).bind
    (f := fun x => x.2.bits k >>= fun y => .ok (Rice.value k x.1 y.1, y.2))
    ((reads_bits k n).map (Rice.value k (n / 2 ^ k)))
  intro p rest
  rw [← hvalue, hcode, ← h p rest]
  dsimp only
  rw [rice_of_le hk]
  rfl

/-- Folding is undone, for negative numbers too. -/
theorem unfold_fold (x : Int32) : Rice.unfold (UInt32.ofNat (Code.fold x)) = x := by
  have hlow := x.le_toInt
  have hhigh := x.toInt_lt
  have hhalf (n : Nat) (hn : n < 2 ^ 32) :
      (UInt32.ofNat n / 2).toInt32.toInt = (n / 2 : Nat) ∧
        (UInt32.ofNat n % 2 = 0 ↔ n % 2 = 0) := by
    have hnat : (UInt32.ofNat n).toNat = n := UInt32.toNat_ofNat_of_lt' hn
    have hdiv : UInt32.ofNat n / 2 = UInt32.ofNat (n / 2) := by
      apply UInt32.toNat_inj.1
      have hlt : n / 2 < 2 ^ 32 := by omega
      rw [UInt32.toNat_div, hnat, UInt32.toNat_ofNat_of_lt' hlt]
      rfl
    constructor
    · rw [hdiv, UInt32.toInt32_ofNat', Int32.toInt_ofNat_of_lt (by omega)]
    · rw [← UInt32.toNat_inj, UInt32.toNat_mod, hnat]
      rfl
  rw [Rice.unfold, Code.fold]
  by_cases hx : 0 ≤ x.toInt
  · obtain ⟨hvalue, heven⟩ := hhalf (2 * x.toInt).toNat (by omega)
    rw [if_pos hx, if_pos (heven.2 (by omega))]
    apply Int32.toInt_inj.1
    rw [hvalue]
    omega
  · obtain ⟨hvalue, heven⟩ := hhalf (-2 * x.toInt - 1).toNat (by omega)
    rw [if_neg hx, if_neg (by rw [heven]; omega)]
    apply Int32.toInt_inj.1
    rw [Int32.toInt_sub, hvalue, show (-1 : Int32).toInt = -1 from rfl]
    rw [Int.bmod_eq_of_le (by omega) (by omega)]
    omega

/-- Signed numbers are read back as they are. -/
theorem reads_signedRice {k : Int32} (hk : Rice.signedBits k ≤ Rice.maxParameter) (x : Int32) :
    Reads (fun r => r.signedRice k) (Code.signed (Rice.signedBits k) x) x := by
  have h := (reads_rice hk (Code.fold x)).map Rice.unfold
  rw [unfold_fold] at h
  exact h

/-- Where the parameter is transmitted, the hint does not matter. -/
theorem reads_adaptive_of_ne {version : UInt8} (hv : version ≠ 0) (hint : Nat) {k : Nat}
    (hk : k ≤ Rice.maxParameter) (n : Nat) :
    Reads (fun r => r.adaptive version hint)
      (Code.rice Rice.adaptiveParameter k ++ Code.rice k n) (UInt32.ofNat n) := by
  have hk' : (UInt32.ofNat k).toNat = k := by
    rw [UInt32.toNat_ofNat', Nat.mod_eq_of_lt]
    rw [Rice.maxParameter] at hk
    omega
  simp only [adaptive, if_neg hv]
  refine (reads_rice (by decide) k).bind ?_
  dsimp only
  rw [hk']
  exact reads_rice hk n

/-- An adaptive number is read back whichever parameter it was written with. -/
theorem reads_adaptive {version : UInt8} {hint k : Nat} (hhint : hint ≤ Rice.maxParameter)
    (hk : k ≤ Rice.maxParameter) (n : Nat) :
    Reads (fun r => r.adaptive version hint) (Code.adaptive version hint k n) (UInt32.ofNat n) := by
  by_cases hv : version = 0
  · simp only [adaptive, Code.adaptive, if_pos hv]
    exact reads_rice hhint n
  · simp only [Code.adaptive, if_neg hv]
    exact reads_adaptive_of_ne hv hint hk n

/-- Codes that stand one behind the other are read back in their order. -/
theorem reads_riceMany {k : Nat} (hk : k ≤ Rice.maxParameter) (ns : List Nat) :
    Reads (fun r => r.riceMany k ns.length) (ns.flatMap (Code.rice k)) (ns.map UInt32.ofNat) := by
  have hgo (read : List UInt32) : Reads (fun r => riceMany.go k r read ns.length)
      (ns.flatMap (Code.rice k)) (read.reverse ++ ns.map UInt32.ofNat) := by
    induction ns generalizing read with
    | nil =>
      rw [List.map_nil, List.append_nil]
      exact Reads.pure _
    | cons n ns ih =>
      refine (reads_rice hk n).bind ?_
      have h := ih (UInt32.ofNat n :: read)
      rw [List.reverse_cons, List.append_assoc] at h
      exact h
  exact hgo []

theorem reads_signedRiceMany {k : Int32} (hk : Rice.signedBits k ≤ Rice.maxParameter)
    (xs : List Int32) :
    Reads (fun r => r.signedRiceMany k xs.length)
      (xs.flatMap (Code.signed (Rice.signedBits k))) xs := by
  have hgo (read : List Int32) : Reads (fun r => signedRiceMany.go k r read xs.length)
      (xs.flatMap (Code.signed (Rice.signedBits k))) (read.reverse ++ xs) := by
    induction xs generalizing read with
    | nil =>
      rw [List.append_nil]
      exact Reads.pure _
    | cons x xs ih =>
      refine (reads_signedRice hk x).bind ?_
      have h := ih (x :: read)
      rw [List.reverse_cons, List.append_assoc] at h
      exact h
  exact hgo []

end BitReader

end LosslessAudio
