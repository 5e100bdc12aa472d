import Mathlib.Data.List.Induction
import LosslessAudio.Proofs.SelfDelimiting

/-!
# What was written where a number was read

`Proofs/Codes.lean` reads back what was written.  This file goes the other way: wherever a read
succeeds, the bits it took are the code of a number, and of one number only.  The number is a
natural number of any size, and what was read is what is left of it in 32 bits.

* `BitReader.rest_of_rice` and its companions — the code that a read took.
* `Code.rice_append_inj` — no Rice code is the beginning of another one.
-/

set_option autoImplicit false

namespace LosslessAudio

namespace Code

theorem toNat_append_singleton (bits : List Bool) (b : Bool) :
    Bits.toNat (bits ++ [b]) = 2 * Bits.toNat bits + b.toNat := by
  rw [Bits.toNat, List.foldl_append]
  rfl

/-- A bit string is the digits of the number it writes. -/
theorem digits_toNat (bits : List Bool) : digits bits.length (Bits.toNat bits) = bits := by
  induction bits using List.reverseRec with
  | nil => rfl
  | append_singleton bits b ih =>
    have hdiv : (2 * Bits.toNat bits + b.toNat) / 2 = Bits.toNat bits := by
      have := b.toNat_lt
      omega
    have hmod : decide ((2 * Bits.toNat bits + b.toNat) % 2 = 1) = b := by
      cases b <;> simp
    rw [List.length_append, toNat_append_singleton, List.length_singleton, digits, hdiv, hmod, ih]

theorem toNat_lt (bits : List Bool) : Bits.toNat bits < 2 ^ bits.length := by
  rw [← digits_toNat bits, toNat_digits, length_digits]
  exact Nat.mod_lt _ (Nat.two_pow_pos _)

/-- Only the lowest digits are written. -/
theorem digits_mod (k n : Nat) : digits k (n % 2 ^ k) = digits k n := by
  have h := digits_toNat (digits k n)
  rwa [length_digits, toNat_digits] at h

theorem rice_eq (k q : Nat) {v : Nat} (hv : v < 2 ^ k) :
    rice k (q * 2 ^ k + v) = List.replicate q false ++ true :: digits k v := by
  have hdiv : (q * 2 ^ k + v) / 2 ^ k = q := by
    rw [Nat.add_comm, Nat.add_mul_div_right _ _ (Nat.two_pow_pos k), Nat.div_eq_of_lt hv,
      Nat.zero_add]
  rw [rice, hdiv, ← digits_mod, Nat.mul_add_mod', Nat.mod_eq_of_lt hv]

/-- No quotient is the beginning of another one. -/
theorem replicate_append_inj {p q : Nat} {w w' : List Bool}
    (h : List.replicate p false ++ true :: w = List.replicate q false ++ true :: w') :
    p = q ∧ w = w' := by
  induction p generalizing q with
  | zero =>
    cases q with
    | zero => exact ⟨rfl, (List.cons.inj h).2⟩
    | succ q => cases h
  | succ p ih =>
    cases q with
    | zero => cases h
    | succ q =>
      obtain ⟨rfl, hw⟩ := ih (List.cons.inj h).2
      exact ⟨rfl, hw⟩

/-- **No Rice code is the beginning of another one** with the same parameter. -/
theorem rice_append_inj {k m n : Nat} {w w' : List Bool} (h : rice k m ++ w = rice k n ++ w') :
    m = n ∧ w = w' := by
  rw [rice, rice, List.append_assoc, List.append_assoc, List.cons_append, List.cons_append] at h
  obtain ⟨hquotient, h⟩ := replicate_append_inj h
  obtain ⟨hdigits, hw⟩ := List.append_inj h (by rw [length_digits, length_digits])
  have hremainder : m % 2 ^ k = n % 2 ^ k := by
    rw [← toNat_digits, hdigits, toNat_digits]
  rw [← Nat.div_add_mod m (2 ^ k), hquotient, hremainder, Nat.div_add_mod]
  exact ⟨rfl, hw⟩

theorem flatMap_rice_append_inj {k : Nat} {ms ns : List Nat} {w w' : List Bool}
    (hlength : ms.length = ns.length)
    (h : ms.flatMap (rice k) ++ w = ns.flatMap (rice k) ++ w') : ms = ns ∧ w = w' := by
  induction ms generalizing ns with
  | nil =>
    obtain rfl : ns = [] := List.length_eq_zero_iff.1 hlength.symm
    exact ⟨rfl, h⟩
  | cons m ms ih =>
    obtain _ | ⟨n, ns⟩ := ns
    · cases hlength
    · rw [List.flatMap_cons, List.flatMap_cons, List.append_assoc, List.append_assoc] at h
      obtain ⟨rfl, hrest⟩ := rice_append_inj h
      obtain ⟨rfl, hw⟩ := ih (Nat.succ.inj hlength) hrest
      exact ⟨rfl, hw⟩

end Code

/-- A code names one command. -/
theorem Command.code_of_ofCode? {code : Nat} {c : Command} (h : Command.ofCode? code = some c) :
    c.code = code := by
  have hlt : code < 10 := (List.getElem?_eq_some_iff.1 h).1
  have hall : ∀ code < 10, ∀ c, Command.ofCode? code = some c → c.code = code := by decide
  exact hall code hlt c h

namespace BitReader

variable {r r' : BitReader} {k : Nat}

theorem rest_of_bits {v : Nat} (h : r.bits k = .ok (v, r')) :
    v < 2 ^ k ∧ r.rest = Code.digits k v ++ r'.rest := by
  rw [bits] at h
  split at h
  · rename_i hlength
    cases h
    have hlt := Code.toNat_lt (r.rest.take k)
    have hdigits := Code.digits_toNat (r.rest.take k)
    rw [hlength] at hlt hdigits
    rw [hdigits]
    exact ⟨hlt, (List.take_append_drop k r.rest).symm⟩
  · cases h

/-- Wherever a Rice code was read, one was written, of a number of any size. -/
theorem rest_of_rice {u : UInt32} (h : r.rice k = .ok (u, r')) :
    ∃ n, u = UInt32.ofNat n ∧ r.rest = Code.rice k n ++ r'.rest := by
  by_cases hk : Rice.maxParameter < k
  · rw [rice, if_pos hk] at h
    cases h
  · rw [rice_of_le (Nat.not_lt.1 hk)] at h
    obtain ⟨⟨q, r₁⟩, hq, h⟩ := bind_eq_ok.1 h
    obtain ⟨⟨v, r₂⟩, hv, h⟩ := bind_eq_ok.1 h
    cases h
    obtain ⟨hlt, hrest⟩ := rest_of_bits hv
    refine ⟨q * 2 ^ k + v, by rw [Rice.value, Nat.shiftLeft_eq], ?_⟩
    rw [rest_of_unary hq, hrest, Code.rice_eq k q hlt]
    simp

theorem rest_of_riceMany {n : Nat} {us : List UInt32} (h : r.riceMany k n = .ok (us, r')) :
    ∃ ns : List Nat, us = ns.map UInt32.ofNat ∧ ns.length = n ∧
      r.rest = ns.flatMap (Code.rice k) ++ r'.rest := by
  suffices ∀ r read, riceMany.go k r read n = .ok (us, r') → ∃ ns : List Nat,
      us = read.reverse ++ ns.map UInt32.ofNat ∧ ns.length = n ∧
        r.rest = ns.flatMap (Code.rice k) ++ r'.rest from this r [] h
  clear h
  induction n with
  | zero =>
    intro r read h
    cases h
    exact ⟨[], (List.append_nil _).symm, rfl, rfl⟩
  | succ n ih =>
    intro r read h
    obtain ⟨⟨u, r₁⟩, hu, h⟩ := bind_eq_ok.1 h
    obtain ⟨m, rfl, hrest⟩ := rest_of_rice hu
    obtain ⟨ns, rfl, hlength, hrest'⟩ := ih r₁ _ h
    refine ⟨m :: ns, ?_, ?_, ?_⟩
    · rw [List.reverse_cons, List.append_assoc, List.map_cons]
      rfl
    · rw [List.length_cons, hlength]
    · rw [hrest, hrest', List.flatMap_cons, List.append_assoc]

/-- A Rice code that stands next is read. -/
theorem rice_of_prefix {n : Nat} (hk : k ≤ Rice.maxParameter) (h : Code.rice k n <+: r.rest) :
    r.rice k = .ok (UInt32.ofNat n, r.advance (Code.rice k n).length) := by
  obtain ⟨rest, hrest⟩ := h
  obtain ⟨position, bits⟩ := r
  obtain rfl : Code.rice k n ++ rest = bits := hrest
  have hread := reads_rice hk n position rest
  rw [advance, List.drop_left]
  exact hread

/-- Where no Rice code with an accepted parameter stands, the bits run out. -/
theorem eq_pastEnd_of_rice {e : ReadFault} (hk : k ≤ Rice.maxParameter)
    (h : r.rice k = .error e) : e = .pastEnd := by
  rw [rice_of_le hk] at h
  rcases bind_eq_error.1 h with h | ⟨⟨q, r₁⟩, -, h⟩
  · exact eq_pastEnd_of_unary h
  · rcases bind_eq_error.1 h with h | ⟨_, -, h⟩
    · exact eq_pastEnd_of_bits h
    · cases h

end BitReader

end LosslessAudio
