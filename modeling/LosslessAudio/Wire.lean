import LosslessAudio.Bits

/-!
# Byte forms of numbers

A number of fixed width is stored as its bytes, either the least or the most significant one first.
`Wire` is the class of types with such a form; a record has the form of its fields one after
another.  Reading little-endian bytes back gives the number, as far as it fits
(`Wire.toNat_littleEndian`).
-/

set_option autoImplicit false

namespace LosslessAudio

/-- Which byte of a number is stored first. -/
inductive ByteOrder where
  | littleEndian
  | bigEndian
  deriving DecidableEq, Repr

namespace Wire

/-- The low `width` bytes of a number, the least significant one first. -/
def littleEndian : (width n : Nat) → Bytes
  | 0, _ => []
  | width + 1, n => UInt8.ofNat n :: littleEndian width (n / 256)

/-- The number a byte string writes, its first byte being the least significant. -/
def toNat (bytes : Bytes) : Nat :=
  bytes.foldr (fun b n ↦ b.toNat + 256 * n) 0

/-- The low `width` bytes of a number in the given order. -/
def ofNat (order : ByteOrder) (width n : Nat) : Bytes :=
  match order with
  | .littleEndian => littleEndian width n
  | .bigEndian => (littleEndian width n).reverse

@[simp] theorem length_littleEndian (width n : Nat) : (littleEndian width n).length = width := by
  induction width generalizing n with
  | zero => rfl
  | succ width ih => simp [littleEndian, ih]

@[simp] theorem toNat_nil : toNat [] = 0 := rfl

@[simp] theorem toNat_cons (b : UInt8) (bytes : Bytes) :
    toNat (b :: bytes) = b.toNat + 256 * toNat bytes := rfl

/-- Reading the bytes of a number gives it back, as far as it fits. -/
theorem toNat_littleEndian (width n : Nat) :
    toNat (littleEndian width n) = n % Nat.pow 256 width := by
  induction width generalizing n with
  | zero => exact (Nat.mod_one n).symm
  | succ width ih =>
    have hpow : Nat.pow 256 (width + 1) = 256 * Nat.pow 256 width := Nat.mul_comm ..
    rw [littleEndian, toNat_cons, ih, hpow, Nat.mod_mul, UInt8.toNat_ofNat']

end Wire

/-- Types whose values have a byte form for either order of the bytes of a number. -/
class Wire (α : Type) where
  /-- The bytes of a value. -/
  bytes : ByteOrder → α → Bytes

namespace Wire

instance : Wire UInt8 := ⟨fun order n ↦ ofNat order 1 n.toNat⟩

instance : Wire Int8 := ⟨fun order n ↦ ofNat order 1 n.toUInt8.toNat⟩

instance : Wire UInt16 := ⟨fun order n ↦ ofNat order 2 n.toNat⟩

instance : Wire Int16 := ⟨fun order n ↦ ofNat order 2 n.toUInt16.toNat⟩

instance : Wire UInt32 := ⟨fun order n ↦ ofNat order 4 n.toNat⟩

instance : Wire Int32 := ⟨fun order n ↦ ofNat order 4 n.toUInt32.toNat⟩

variable {α β : Type}

/-- A record without fields takes no bytes. -/
instance : Wire Unit := ⟨fun _ _ ↦ []⟩

/-- The fields of a record follow one another. -/
instance [Wire α] [Wire β] : Wire (α × β) := ⟨fun order p ↦ bytes order p.1 ++ bytes order p.2⟩

/-- The entries of a list follow one another. -/
instance [Wire α] : Wire (List α) := ⟨fun order xs ↦ xs.flatMap (bytes order)⟩

@[simp] theorem bytes_prod [Wire α] [Wire β] (order : ByteOrder) (p : α × β) :
    bytes order p = bytes order p.1 ++ bytes order p.2 := rfl

@[simp] theorem bytes_list_nil [Wire α] (order : ByteOrder) :
    bytes order ([] : List α) = [] := rfl

@[simp] theorem bytes_list_append [Wire α] (order : ByteOrder) (xs ys : List α) :
    bytes order (xs ++ ys) = bytes order xs ++ bytes order ys :=
  List.flatMap_append

end Wire

end LosslessAudio
