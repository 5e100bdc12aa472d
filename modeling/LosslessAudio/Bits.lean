/-!
# Bit strings and the bit reader

A compressed stream is a string of bits, the most significant bit of each byte first.  This file
holds

* `Bits.ofBytes`, the bit string of a byte string, and `Bits.toNat`, the number a bit string writes;
* `BitReader`, a position in a bit string together with the bits still to come, and the reads that
  every code of the format is made of.

A read is a function of the reader alone: it answers with a value and the reader behind it, or
with the cause of its failure.  Keeping the old reader therefore is all it takes to go back.
-/

set_option autoImplicit false

namespace LosslessAudio

/-- A string of bytes. -/
abbrev Bytes := List UInt8

namespace Bits

/-- The eight bits of a byte, the most significant one first. -/
def ofByte (b : UInt8) : List Bool :=
  [7, 6, 5, 4, 3, 2, 1, 0].map fun i ↦ b.toNat.testBit i

/-- The bits of a byte string in reading order. -/
def ofBytes (bytes : Bytes) : List Bool :=
  bytes.flatMap ofByte

/-- The number a bit string writes, its first bit being the most significant. -/
def toNat (bits : List Bool) : Nat :=
  bits.foldl (fun n b ↦ 2 * n + b.toNat) 0

@[simp] theorem length_ofByte (b : UInt8) : (ofByte b).length = 8 := rfl

@[simp] theorem ofBytes_nil : ofBytes [] = [] := rfl

@[simp] theorem ofBytes_cons (b : UInt8) (bytes : Bytes) :
    ofBytes (b :: bytes) = ofByte b ++ ofBytes bytes := rfl

@[simp] theorem ofBytes_append (xs ys : Bytes) : ofBytes (xs ++ ys) = ofBytes xs ++ ofBytes ys := by
  simp [ofBytes]

@[simp] theorem length_ofBytes (bytes : Bytes) : (ofBytes bytes).length = 8 * bytes.length := by
  induction bytes with
  | nil => rfl
  | cons b bytes ih => simp [ih]; omega

end Bits

/-- Why a read from a bit string failed. -/
inductive ReadFault where
  /-- Fewer bits are left than the read needs. -/
  | pastEnd
  /-- A skip of more bits than are left. -/
  | skipPastEnd
  /-- A jump to a position behind the last bit. -/
  | seekPastEnd (position : Nat)
  /-- More bits were asked for than the requested type of number holds. -/
  | tooWide
  /-- A Rice parameter above 31, met at a bit position. -/
  | riceParameter (parameter position : Nat)
  deriving DecidableEq, Repr

/-- Whether the read failed only because the bits ran out, so that more input may mend it. -/
def ReadFault.isOverread : ReadFault → Bool
  | .pastEnd | .skipPastEnd | .seekPastEnd _ => true
  | .tooWide | .riceParameter _ _ => false

/-- A place in a bit string: how many bits lie before it, and the bits behind it. -/
structure BitReader where
  position : Nat
  rest : List Bool
  deriving DecidableEq, Repr

namespace BitReader

/-- A reader before the first bit of a byte string. -/
def ofBytes (bytes : Bytes) : BitReader :=
  ⟨0, Bits.ofBytes bytes⟩

/-- How many bits are left. -/
def available (r : BitReader) : Nat :=
  r.rest.length

/-- The reader `n` bits further on. -/
def advance (r : BitReader) (n : Nat) : BitReader :=
  ⟨r.position + n, r.rest.drop n⟩

/-- Reads one bit. -/
def bit (r : BitReader) : Except ReadFault (Bool × BitReader) :=
  match r.rest with
  | [] => .error .pastEnd
  | b :: rest => .ok (b, ⟨r.position + 1, rest⟩)

/-- Reads `n` bits as a number, the most significant bit first. -/
def bits (r : BitReader) (n : Nat) : Except ReadFault (Nat × BitReader) :=
  let taken := r.rest.take n
  if taken.length = n then .ok (Bits.toNat taken, r.advance n) else .error .pastEnd

/-- Reads `n` bits as a number of a type with `width` bits. -/
def bitsOfWidth (r : BitReader) (width n : Nat) : Except ReadFault (Nat × BitReader) :=
  if width < n then .error .tooWide else r.bits n

/-- A type that is wide enough does not stand in the way. -/
theorem bitsOfWidth_of_le (r : BitReader) {width n : Nat} (h : n ≤ width) :
    r.bitsOfWidth width n = r.bits n :=
  if_neg (Nat.not_lt.2 h)

/-- Passes over `n` bits. -/
def skip (r : BitReader) (n : Nat) : Except ReadFault BitReader :=
  if (r.rest.take n).length = n then .ok (r.advance n) else .error .skipPastEnd

/-- The reader at a position of a bit string counted from its start. -/
def seek (bits : List Bool) (position : Nat) : Except ReadFault BitReader :=
  if position ≤ bits.length then .ok ⟨position, bits.drop position⟩
  else .error (.seekPastEnd position)

@[simp] theorem available_advance (r : BitReader) (n : Nat) :
    (r.advance n).available = r.available - n := by
  simp [available, advance]

@[simp] theorem advance_zero (r : BitReader) : r.advance 0 = r := rfl

theorem advance_advance (r : BitReader) (m n : Nat) :
    (r.advance m).advance n = r.advance (m + n) := by
  simp [advance, Nat.add_assoc]

/-! ## How far a read goes

A read that succeeds leaves a reader of the same bit string, some bits further on and never behind
its end. -/

/-- `r'` is the reader `n` bits behind `r`, and there are that many bits. -/
def Passes (r : BitReader) (n : Nat) (r' : BitReader) : Prop :=
  n ≤ r.available ∧ r' = r.advance n

theorem Passes.refl (r : BitReader) : r.Passes 0 r :=
  ⟨Nat.zero_le _, rfl⟩

theorem Passes.trans {r r' r'' : BitReader} {m n : Nat} (h : r.Passes m r') (h' : r'.Passes n r'') :
    r.Passes (m + n) r'' := by
  obtain ⟨hm, rfl⟩ := h
  obtain ⟨hn, rfl⟩ := h'
  rw [available_advance] at hn
  exact ⟨by omega, advance_advance r m n⟩

theorem Passes.available_eq {r r' : BitReader} {n : Nat} (h : r.Passes n r') :
    r'.available + n = r.available := by
  obtain ⟨hn, rfl⟩ := h
  rw [available_advance]
  omega

theorem passes_of_bits {r r' : BitReader} {n v : Nat} (h : r.bits n = .ok (v, r')) :
    r.Passes n r' := by
  unfold bits at h
  dsimp only at h
  split at h
  case isTrue hn =>
    simp only [Except.ok.injEq, Prod.mk.injEq] at h
    simp only [List.length_take] at hn
    exact ⟨by simp only [available]; omega, h.2.symm⟩
  case isFalse => cases h

theorem passes_of_skip {r r' : BitReader} {n : Nat} (h : r.skip n = .ok r') : r.Passes n r' := by
  unfold skip at h
  split at h
  case isTrue hn =>
    simp only [Except.ok.injEq] at h
    simp only [List.length_take] at hn
    exact ⟨by simp only [available]; omega, h.symm⟩
  case isFalse => cases h

end BitReader

/-- Fails with a given cause unless a condition holds. -/
def ensure {ε : Type} (condition : Prop) [Decidable condition] (cause : ε) : Except ε Unit :=
  if condition then .ok () else .error cause

theorem ensure_eq_ok {ε : Type} {condition : Prop} [Decidable condition] {cause : ε} {u : Unit} :
    ensure condition cause = .ok u ↔ condition := by
  unfold ensure
  split <;> simp_all

/-- A sequence of steps succeeds exactly if each of them does. -/
theorem bind_eq_ok {ε α β : Type} {x : Except ε α} {f : α → Except ε β} {b : β} :
    x >>= f = .ok b ↔ ∃ a, x = .ok a ∧ f a = .ok b := by
  cases x with
  | error e => simp [bind, Except.bind]
  | ok a => simp [bind, Except.bind]

theorem bind_eq_error {ε α β : Type} {x : Except ε α} {f : α → Except ε β} {e : ε} :
    x >>= f = .error e ↔ x = .error e ∨ ∃ a, x = .ok a ∧ f a = .error e := by
  cases x with
  | error e => simp [bind, Except.bind]
  | ok a => simp [bind, Except.bind]

@[simp] theorem ok_bind {ε α β : Type} (a : α) (f : α → Except ε β) :
    Except.ok a >>= f = f a := rfl

@[simp] theorem mapError_error {ε ε' α : Type} (f : ε → ε') (e : ε) :
    (Except.error e : Except ε α).mapError f = .error (f e) := rfl

@[simp] theorem mapError_ok {ε ε' α : Type} (f : ε → ε') (a : α) :
    (Except.ok a).mapError f = .ok a := rfl

end LosslessAudio
