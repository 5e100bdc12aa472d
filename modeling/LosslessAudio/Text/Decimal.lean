/-!
# Decimal text

Whole numbers with zeros in front, and binary floating point numbers with a fixed number of decimal
places.  The latter are rounded from their exact value: to the nearest decimal, and to the one with
an even last digit where two are equally near (`roundDiv_near`, `roundDiv_even`).
-/

set_option autoImplicit false

namespace LosslessAudio

/-- The exact value `mantissa * 2 ^ exponent` of a floating point number. -/
structure Magnitude where
  mantissa : Nat
  exponent : Int
  deriving DecidableEq, Repr

namespace Magnitude

/-- The exact value of a number, unless it is infinite, not a number, or has a minus sign. -/
def ofFloat? (x : Float) : Option Magnitude :=
  let bits := x.toBits.toNat
  let exponent : Nat := (bits >>> 52) % 2048
  let fraction := bits % (1 <<< 52)
  if 1 <<< 63 ≤ bits ∨ exponent = 2047 then none
  else if exponent = 0 then some ⟨fraction, -1074⟩
  else some ⟨1 <<< 52 + fraction, exponent - 1075⟩

/-- The numerator of the value as a fraction. -/
def numerator (m : Magnitude) : Nat :=
  m.mantissa <<< m.exponent.toNat

/-- The denominator of the value as a fraction. -/
def denominator (m : Magnitude) : Nat :=
  1 <<< (-m.exponent).toNat

/-- The remainder of the value by a whole number, again as a floating point number.  It has no
more digits than the value itself, so nothing is rounded. -/
def remainder (m : Magnitude) (n : Nat) : Float :=
  Float.scaleB (Float.ofNat (m.numerator % (n * m.denominator))) (min 0 m.exponent)

end Magnitude

namespace Text

/-- The nearest whole number to `n / d`, the even one of two that are equally near. -/
def roundDiv (n d : Nat) : Nat :=
  let q := n / d
  let r := n % d
  if 2 * r < d then q
  else if 2 * r = d ∧ q % 2 = 0 then q
  else q + 1

theorem roundDiv_near (n : Nat) {d : Nat} (hd : 0 < d) :
    2 * (roundDiv n d * d) ≤ 2 * n + d ∧ 2 * n ≤ 2 * (roundDiv n d * d) + d := by
  have hn : d * (n / d) + n % d = n := Nat.div_add_mod n d
  have hr : n % d < d := Nat.mod_lt _ hd
  have hq : n / d * d = d * (n / d) := Nat.mul_comm ..
  have hq' : (n / d + 1) * d = d * (n / d) + d := by rw [Nat.add_mul, Nat.one_mul, hq]
  unfold roundDiv
  dsimp only
  split
  · omega
  · split <;> omega

theorem roundDiv_even {n d : Nat} (h : 2 * (n % d) = d) : roundDiv n d % 2 = 0 := by
  unfold roundDiv
  dsimp only
  rw [if_neg (by omega)]
  split
  case isTrue hq => exact hq.2
  case isFalse hq =>
    have : n / d % 2 ≠ 0 := fun he ↦ hq ⟨h, he⟩
    omega

/-- A whole number with zeros in front of it, up to a width. -/
def padded (width n : Nat) : String :=
  let digits := Nat.toDigits 10 n
  String.ofList (List.replicate (width - digits.length) '0' ++ digits)

/-- The decimal that is nearest to a number, with a fixed number of places.  It is zero where the
number has no exact value. -/
def fixed (places : Nat) (x : Float) : String :=
  let unit := Nat.pow 10 places
  let scaled :=
    match Magnitude.ofFloat? x with
    | none => 0
    | some m => roundDiv (m.numerator * unit) m.denominator
  padded 1 (scaled / unit) ++ "." ++ padded places (scaled % unit)

end Text

end LosslessAudio
