import LosslessAudio.Bits

/-!
# Rice codes

A Rice code with parameter `k` writes a number as a quotient in unary (that many zeros and a one)
and a remainder of `k` bits.  Numbers are 32 bits wide, so a code stands for its value modulo
`2 ^ 32`.  On top of it the format has two more codes:

* signed numbers, folded onto the unsigned ones in the order 0, -1, 1, -2, 2, …, with one
  remainder bit more than the parameter says;
* adaptive numbers, whose parameter is itself transmitted; version 0 of the format does not
  transmit it and uses a fixed hint instead.
-/

set_option autoImplicit false

namespace LosslessAudio

namespace Rice

/-- The largest parameter a code may have. -/
def maxParameter : Nat := 31

/-- The parameter of the code that transmits the parameter of an adaptive number. -/
def adaptiveParameter : Nat := 2

/-- The value of a code with parameter `k`, quotient `q` and remainder `r`. -/
def value (k q r : Nat) : UInt32 :=
  UInt32.ofNat (q <<< k + r)

/-- The signed number behind an unsigned one: even numbers count up from 0, odd ones down from
-1. -/
def unfold (u : UInt32) : Int32 :=
  let half := (u / 2).toInt32
  if u % 2 = 0 then half else -1 - half

/-- How many remainder bits a signed code with parameter `k` has. -/
def signedBits (k : Int32) : Nat :=
  (min (k.toInt + 1) Int32.maxValue.toInt).toNat

end Rice

namespace BitReader

/-- Counts the zeros before the next one and passes over both. -/
def unary (r : BitReader) : Except ReadFault (Nat × BitReader) :=
  let zeros := r.rest.takeWhile (!·)
  match r.rest.dropWhile (!·) with
  | [] => .error .pastEnd
  | _ :: rest => .ok (zeros.length, ⟨r.position + zeros.length + 1, rest⟩)

/-- Reads an unsigned Rice code with parameter `k`. -/
def rice (r : BitReader) (k : Nat) : Except ReadFault (UInt32 × BitReader) :=
  if Rice.maxParameter < k then .error (.riceParameter k r.position)
  else do
    let (q, r) ← r.unary
    let (remainder, r) ← r.bitsOfWidth 32 k
    return (Rice.value k q remainder, r)

/-- No parameter that a code may have asks for more bits than the remainder may have. -/
theorem rice_of_le {k : Nat} (hk : k ≤ Rice.maxParameter) (r : BitReader) :
    r.rice k = (do
      let (q, r) ← r.unary
      let (remainder, r) ← r.bits k
      return (Rice.value k q remainder, r)) := by
  have hwidth : k ≤ 32 := Nat.le_trans hk (by decide)
  simp only [rice, if_neg (Nat.not_lt.2 hk), bitsOfWidth_of_le _ hwidth]

/-- Reads a signed Rice code with parameter `k`, which may be negative. -/
def signedRice (r : BitReader) (k : Int32) : Except ReadFault (Int32 × BitReader) := do
  let (u, r) ← r.rice (Rice.signedBits k)
  return (Rice.unfold u, r)

/-- Reads an adaptive number of a stream of the given version. -/
def adaptive (r : BitReader) (version : UInt8) (hint : Nat) :
    Except ReadFault (UInt32 × BitReader) :=
  if version = 0 then r.rice hint
  else do
    let (k, r) ← r.rice Rice.adaptiveParameter
    r.rice k.toNat

/-- Reads `n` Rice codes with parameter `k` one after the other. -/
def riceMany (r : BitReader) (k : Nat) : Nat → Except ReadFault (List UInt32 × BitReader) :=
  go r []
where
  /-- Reads `n` more codes behind those already read, the last of which comes first. -/
  go (r : BitReader) (read : List UInt32) : Nat → Except ReadFault (List UInt32 × BitReader)
    | 0 => .ok (read.reverse, r)
    | n + 1 => do
      let (u, r) ← r.rice k
      go r (u :: read) n

/-- Reads `n` signed Rice codes with parameter `k` one after the other. -/
def signedRiceMany (r : BitReader) (k : Int32) : Nat → Except ReadFault (List Int32 × BitReader) :=
  go r []
where
  /-- Reads `n` more codes behind those already read, the last of which comes first. -/
  go (r : BitReader) (read : List Int32) : Nat → Except ReadFault (List Int32 × BitReader)
    | 0 => .ok (read.reverse, r)
    | n + 1 => do
      let (x, r) ← r.signedRice k
      go r (x :: read) n

/-! ## How far a code reaches -/

theorem passes_of_unary {r r' : BitReader} {q : Nat} (h : r.unary = .ok (q, r')) :
    r.Passes (q + 1) r' := by
  unfold unary at h
  have split := List.takeWhile_append_dropWhile (p := (!·)) (l := r.rest)
  cases hd : r.rest.dropWhile (!·) with
  | nil => rw [hd] at h; cases h
  | cons b rest =>
    rw [hd] at h split
    simp only [Except.ok.injEq, Prod.mk.injEq] at h
    obtain ⟨rfl, rfl⟩ := h
    have hlen : r.rest.length = (r.rest.takeWhile (!·)).length + (rest.length + 1) := by
      rw [← List.length_cons (a := b), ← List.length_append, split]
    refine ⟨by simp only [available]; omega, ?_⟩
    simp only [advance, BitReader.mk.injEq]
    refine ⟨by omega, ?_⟩
    generalize r.rest.takeWhile (!·) = zeros at split
    rw [← split, List.drop_append]
    simp

theorem passes_of_rice {r r' : BitReader} {k : Nat} {v : UInt32} (h : r.rice k = .ok (v, r')) :
    ∃ q, r.Passes (q + 1 + k) r' := by
  by_cases hk : Rice.maxParameter < k
  · rw [rice, if_pos hk] at h
    cases h
  · rw [rice_of_le (Nat.not_lt.1 hk)] at h
    obtain ⟨⟨q, r₁⟩, hq, h⟩ := bind_eq_ok.1 h
    obtain ⟨⟨v', r₂⟩, hv, h⟩ := bind_eq_ok.1 h
    cases h
    exact ⟨q, (passes_of_unary hq).trans (passes_of_bits hv)⟩

theorem passes_of_signedRice {r r' : BitReader} {k : Int32} {x : Int32}
    (h : r.signedRice k = .ok (x, r')) : ∃ q, r.Passes (q + 1 + Rice.signedBits k) r' := by
  obtain ⟨⟨u, r₁⟩, hu, h⟩ := bind_eq_ok.1 h
  cases h
  exact passes_of_rice hu

theorem passes_of_adaptive {r r' : BitReader} {version : UInt8} {hint : Nat} {v : UInt32}
    (h : r.adaptive version hint = .ok (v, r')) : ∃ n, r.Passes n r' := by
  unfold adaptive at h
  split at h
  · obtain ⟨q, hq⟩ := passes_of_rice h
    exact ⟨_, hq⟩
  · obtain ⟨⟨k, r₁⟩, hk, h⟩ := bind_eq_ok.1 h
    obtain ⟨_, hk⟩ := passes_of_rice hk
    obtain ⟨_, hv⟩ := passes_of_rice h
    exact ⟨_, hk.trans hv⟩

theorem passes_of_riceMany {r r' : BitReader} {k n : Nat} {vs : List UInt32}
    (h : r.riceMany k n = .ok (vs, r')) : ∃ m, r.Passes m r' := by
  unfold riceMany at h
  suffices ∀ read, riceMany.go k r read n = .ok (vs, r') → ∃ m, r.Passes m r' from this _ h
  clear h
  induction n generalizing r with
  | zero => rintro read h; cases h; exact ⟨0, .refl _⟩
  | succ n ih =>
    intro read h
    obtain ⟨⟨v, r₁⟩, hv, h⟩ := bind_eq_ok.1 h
    obtain ⟨_, hv⟩ := passes_of_rice hv
    obtain ⟨_, hn⟩ := ih _ h
    exact ⟨_, hv.trans hn⟩

theorem passes_of_signedRiceMany {r r' : BitReader} {k : Int32} {n : Nat} {xs : List Int32}
    (h : r.signedRiceMany k n = .ok (xs, r')) : ∃ m, r.Passes m r' := by
  unfold signedRiceMany at h
  suffices ∀ read, signedRiceMany.go k r read n = .ok (xs, r') → ∃ m, r.Passes m r' from this _ h
  clear h
  induction n generalizing r with
  | zero => rintro read h; cases h; exact ⟨0, .refl _⟩
  | succ n ih =>
    intro read h
    obtain ⟨⟨v, r₁⟩, hv, h⟩ := bind_eq_ok.1 h
    obtain ⟨_, hv⟩ := passes_of_signedRice hv
    obtain ⟨_, hn⟩ := ih _ h
    exact ⟨_, hv.trans hn⟩

end BitReader

end LosslessAudio
