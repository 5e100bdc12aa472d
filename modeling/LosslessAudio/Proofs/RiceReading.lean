import LosslessAudio.Proofs.Codewords

/-!
# When a Rice code is read

A Rice code is read exactly where one stands: some zeros, a one, and as many bits behind it as the
parameter says.  `RiceNext` says this of the bits ahead of a reader, without reading them.  The
number is what these bits write, modulo `2 ^ 32`, and nothing behind them is touched.

* `rice_eq_riceInWords` — the same number comes out where the zeros are counted one by one in a
  32-bit word, which is then shifted to make room for the remainder.
* `rice_eq_ok_iff`, `rice_eq_pastEnd_iff` — when a code is read, and when it is not.
* `numbers_read_exactly` — all of this together, and what it means for numbers that were written.
-/

set_option autoImplicit false

namespace LosslessAudio

/-! ## In 32-bit words -/

/-- Shifting drops what lies beyond 32 bits, and the remainder stands in the bits that it clears. -/
theorem Rice.value_eq_or {k q v : Nat} (hk : k ≤ maxParameter) (hv : v < 2 ^ k) :
    value k q v = UInt32.ofNat q <<< UInt32.ofNat k ||| UInt32.ofNat v := by
  have hamount : k % 2 ^ 32 % 32 = k := by
    rw [maxParameter] at hk
    omega
  apply UInt32.toNat_inj.1
  -- below the lowest `k` bits nothing is carried, so adding the remainder is setting its bits
  calc (value k q v).toNat
      = (q <<< k + v) % 2 ^ 32 := UInt32.toNat_ofNat'
    _ = (q <<< k) % 2 ^ 32 ||| v % 2 ^ 32 := by
      rw [Nat.shiftLeft_add_eq_or_of_lt hv, Nat.or_mod_two_pow]
    _ = (q % 2 ^ 32) <<< k % 2 ^ 32 ||| v % 2 ^ 32 := by
      rw [Nat.shiftLeft_eq, Nat.shiftLeft_eq, Nat.mod_mul_mod]
    _ = (UInt32.ofNat q <<< UInt32.ofNat k ||| UInt32.ofNat v).toNat := by
      rw [UInt32.toNat_or, UInt32.toNat_shiftLeft, UInt32.toNat_ofNat', UInt32.toNat_ofNat',
        UInt32.toNat_ofNat', hamount]

namespace BitReader

/-- Counts the zeros before the next one, bit by bit, in a 32-bit word that holds `q` so far. -/
def countZeros (q : UInt32) (position : Nat) : List Bool → Except ReadFault (UInt32 × BitReader)
  | [] => .error .pastEnd
  | true :: rest => .ok (q, ⟨position + 1, rest⟩)
  | false :: rest => countZeros (q + 1) (position + 1) rest

/-- Reads a Rice code with a quotient that is counted and shifted in a 32-bit word. -/
def riceInWords (r : BitReader) (k : Nat) : Except ReadFault (UInt32 × BitReader) := do
  let (q, r) ← countZeros 0 r.position r.rest
  let (remainder, r) ← r.bits k
  return (q <<< UInt32.ofNat k ||| UInt32.ofNat remainder, r)

/-- A zero counts for one more. -/
theorem unary_cons_false (position : Nat) (rest : List Bool) :
    unary ⟨position, false :: rest⟩ =
      unary ⟨position + 1, rest⟩ >>= fun x => .ok (x.1 + 1, x.2) := by
  have hdrop : (false :: rest).dropWhile (!·) = rest.dropWhile (!·) := rfl
  have htake : ((false :: rest).takeWhile (!·)).length = (rest.takeWhile (!·)).length + 1 := rfl
  rw [unary, unary]
  dsimp only
  rw [hdrop, htake]
  cases rest.dropWhile (!·) with
  | nil => rfl
  | cons b rest' =>
    have hposition (n : Nat) : position + (n + 1) + 1 = position + 1 + n + 1 := by omega
    rw [hposition]
    rfl

/-- The word wraps where the count passes `2 ^ 32`. -/
theorem countZeros_eq (q : UInt32) (position : Nat) (bits : List Bool) :
    countZeros q position bits =
      unary ⟨position, bits⟩ >>= fun x => .ok (q + UInt32.ofNat x.1, x.2) := by
  -- on the bits, for every count so far: a zero leaves the rest to be counted from one more
  induction bits generalizing q position with
  | nil => rfl
  | cons b rest ih =>
    cases b with
    | true =>
      show Except.ok (q, _) = Except.ok (q + 0, _)
      rw [UInt32.add_zero]
      rfl
    | false =>
      rw [countZeros, ih, unary_cons_false]
      cases unary ⟨position + 1, rest⟩ with
      | error e => rfl
      | ok x =>
        have hcount : q + 1 + UInt32.ofNat x.1 = q + UInt32.ofNat (x.1 + 1) := by
          rw [UInt32.ofNat_add, UInt32.add_assoc, UInt32.add_comm 1]
          rfl
        simp only [ok_bind, hcount]

/-- **A Rice code is the same number in 32-bit words.** -/
theorem rice_eq_riceInWords (r : BitReader) {k : Nat} (hk : k ≤ Rice.maxParameter) :
    r.rice k = r.riceInWords k := by
  rw [rice_of_le hk, riceInWords, countZeros_eq]
  cases r.unary with
  | error e => rfl
  | ok x =>
    obtain ⟨q, r₁⟩ := x
    simp only [ok_bind, UInt32.zero_add]
    cases hbits : r₁.bits k with
    | error e => rfl
    | ok y =>
      simp only [ok_bind, Rice.value_eq_or hk (rest_of_bits hbits).1]

/-! ## What stands next -/

/-- A Rice code with parameter `k` stands next: `q` zeros, a one, and `k` bits that write `v`. -/
def RiceNext (r : BitReader) (k q v : Nat) : Prop :=
  ∃ remainder : List Bool, remainder.length = k ∧ Bits.toNat remainder = v ∧
    List.replicate q false ++ true :: remainder <+: r.rest

variable {r r' : BitReader} {k q v : Nat} {u : UInt32}

theorem riceNext_iff : r.RiceNext k q v ↔ v < 2 ^ k ∧ Code.rice k (q * 2 ^ k + v) <+: r.rest := by
  constructor
  · rintro ⟨remainder, rfl, rfl, hnext⟩
    have hlt := Code.toNat_lt remainder
    rw [Code.rice_eq _ q hlt, Code.digits_toNat]
    exact ⟨hlt, hnext⟩
  · rintro ⟨hlt, hnext⟩
    rw [Code.rice_eq k q hlt] at hnext
    exact ⟨Code.digits k v, Code.length_digits k v,
      (Code.toNat_digits k v).trans (Nat.mod_eq_of_lt hlt), hnext⟩

/-- **A code that stands next is read**, and nothing behind it. -/
theorem rice_of_riceNext (hk : k ≤ Rice.maxParameter) (h : r.RiceNext k q v) :
    r.rice k = .ok (UInt32.ofNat (q * 2 ^ k + v), r.advance (q + 1 + k)) := by
  obtain ⟨hlt, hnext⟩ := riceNext_iff.1 h
  have hlength : (Code.rice k (q * 2 ^ k + v)).length = q + 1 + k := by
    rw [Code.rice_eq k q hlt, List.length_append, List.length_replicate, List.length_cons,
      Code.length_digits]
    omega
  have hread := rice_of_prefix hk hnext
  rwa [hlength] at hread

/-- **What was read stood next.** -/
theorem riceNext_of_rice (h : r.rice k = .ok (u, r')) : ∃ q v, r.RiceNext k q v := by
  obtain ⟨n, -, hrest⟩ := rest_of_rice h
  refine ⟨n / 2 ^ k, n % 2 ^ k, riceNext_iff.2 ⟨Nat.mod_lt _ (Nat.two_pow_pos k), r'.rest, ?_⟩⟩
  rw [hrest, Nat.div_add_mod']

/-! ## When a code is read -/

theorem rice_eq_ok_iff (hk : k ≤ Rice.maxParameter) :
    r.rice k = .ok (u, r') ↔ ∃ q v, r.RiceNext k q v ∧ u.toNat = (q * 2 ^ k + v) % 2 ^ 32 ∧
      r' = r.advance (q + 1 + k) := by
  constructor
  · intro h
    obtain ⟨q, v, hnext⟩ := riceNext_of_rice h
    rw [rice_of_riceNext hk hnext] at h
    cases h
    exact ⟨q, v, hnext, UInt32.toNat_ofNat', rfl⟩
  · rintro ⟨q, v, hnext, hu, rfl⟩
    have hword : UInt32.ofNat (q * 2 ^ k + v) = u :=
      UInt32.toNat_inj.1 (UInt32.toNat_ofNat'.trans hu.symm)
    rw [rice_of_riceNext hk hnext, hword]

theorem rice_eq_pastEnd_iff (hk : k ≤ Rice.maxParameter) :
    r.rice k = .error .pastEnd ↔ ∀ q v, ¬ r.RiceNext k q v := by
  constructor
  · intro h q v hnext
    rw [rice_of_riceNext hk hnext] at h
    cases h
  · intro hnone
    cases h : r.rice k with
    | ok x =>
      obtain ⟨q, v, hnext⟩ := riceNext_of_rice h
      exact absurd hnext (hnone q v)
    | error e => rw [eq_pastEnd_of_rice hk h]

/-- **Numbers are read exactly.**  Wherever a reader stands, a Rice code with a parameter of at most
31 is read if one stands next, as the number that it writes modulo `2 ^ 32`, which leaves the reader
right behind it; otherwise the bits run out.  It makes no difference that quotients are counted in
32-bit words.  A larger parameter is refused.

So whatever stands behind it, the code of a number of 32 bits is read as this number: of an unsigned
one with any of these parameters, of a signed one with a parameter from -1 to 30, and of an adaptive
one with whichever parameter was transmitted; in version 0 the hint takes its place. -/
theorem numbers_read_exactly :
    (∀ r : BitReader, ∀ k ≤ 31,
      (∀ u r', r.rice k = .ok (u, r') ↔ ∃ q v, r.RiceNext k q v ∧
        u.toNat = (q * 2 ^ k + v) % 2 ^ 32 ∧ r' = r.advance (q + 1 + k)) ∧
      (r.rice k = .error .pastEnd ↔ ∀ q v, ¬ r.RiceNext k q v) ∧
      r.rice k = r.riceInWords k) ∧
    (∀ (r : BitReader) (k : Nat), 31 < k → r.rice k = .error (.riceParameter k r.position)) ∧
    (∀ k ≤ 31, ∀ v : UInt32, Reads (fun r => r.rice k) (Code.rice k v.toNat) v) ∧
    (∀ k : Int32, -1 ≤ k.toInt → k.toInt ≤ 30 → ∀ s,
      Reads (fun r => r.signedRice k) (Code.signed (k.toInt + 1).toNat s) s) ∧
    (∀ version : UInt8, 0 < version → ∀ hint, ∀ k ≤ 31, ∀ v : UInt32,
      Reads (fun r => r.adaptive version hint) (Code.rice 2 k ++ Code.rice k v.toNat) v) ∧
    ∀ (r : BitReader) (hint : Nat), r.adaptive 0 hint = r.rice hint := by
  refine ⟨fun r k hk => ⟨fun u r' => rice_eq_ok_iff hk, rice_eq_pastEnd_iff hk,
    r.rice_eq_riceInWords hk⟩, fun r k hk => if_pos hk, fun k hk v => ?_, fun k hlow hhigh s => ?_,
    fun version hversion hint k hk v => ?_, fun r hint => if_pos rfl⟩
  · have hread := reads_rice hk v.toNat
    rwa [UInt32.ofNat_toNat] at hread
  · have hread := reads_signedRice (Rice.signedBits_le hlow hhigh) s
    rwa [Rice.signedBits_of_le hlow hhigh] at hread
  · have hread := reads_adaptive_of_ne (UInt8.ne_of_lt hversion).symm hint hk v.toNat
    rwa [UInt32.ofNat_toNat] at hread

theorem numbers_read_exactly_outermost :
    (ofBytes [0x5c]).RiceNext 2 1 1 ∧
      (ofBytes [0x5c]).rice 2 = .ok (5, (ofBytes [0x5c]).advance (1 + 1 + 2)) ∧
      (∀ q v, ¬ (ofBytes [0]).RiceNext 0 q v) ∧ (ofBytes [0]).rice 0 = .error .pastEnd ∧
      31 < 40 ∧ (ofBytes [0xff]).rice 40 = .error (.riceParameter 40 0) ∧
      Reads (fun r => r.rice 31) (Code.rice 31 4294967295) 4294967295 ∧
      -1 ≤ (-1 : Int32).toInt ∧ (-1 : Int32).toInt ≤ 30 ∧
      Reads (fun r => r.signedRice (-1)) (Code.signed 0 Int32.minValue) Int32.minValue ∧
      0 < (2 : UInt8) ∧
      Reads (fun r => r.adaptive 2 7) (Code.rice 2 31 ++ Code.rice 31 4294967295) 4294967295 ∧
      (ofBytes [0x5c]).adaptive 0 2 = .ok (5, (ofBytes [0x5c]).advance (1 + 1 + 2)) := by
  obtain ⟨hexact, hrefused, hunsigned, hsigned, hadaptive, hhint⟩ := numbers_read_exactly
  have hnext : (ofBytes [0x5c]).RiceNext 2 1 1 := ⟨[false, true], rfl, rfl, by decide⟩
  have hfive : (ofBytes [0x5c]).rice 2 = .ok (5, (ofBytes [0x5c]).advance (1 + 1 + 2)) :=
    ((hexact _ 2 (by decide)).1 _ _).2 ⟨1, 1, hnext, rfl, rfl⟩
  have hzeros : ∀ q v, ¬ (ofBytes [0]).RiceNext 0 q v := by
    rintro q v ⟨remainder, -, -, hprefix⟩
    have hone : true ∈ (ofBytes [0]).rest := hprefix.subset (by simp)
    exact absurd hone (by decide)
  exact ⟨hnext, hfive, hzeros, (hexact _ 0 (by decide)).2.1.2 hzeros, by decide,
    hrefused _ 40 (by decide), hunsigned 31 (by decide) 4294967295, by decide, by decide,
    hsigned (-1) (by decide) (by decide) Int32.minValue, by decide,
    hadaptive 2 (by decide) 7 31 (by decide) 4294967295, (hhint _ 2).trans hfive⟩

/-- How signed numbers are folded onto the unsigned ones, to the ends of both. -/
example : [0, -1, 1, -2, 2, Int32.maxValue, Int32.minValue].map Code.fold =
    [0, 1, 2, 3, 4, 4294967294, 4294967295] := by
  decide

end BitReader

end LosslessAudio
