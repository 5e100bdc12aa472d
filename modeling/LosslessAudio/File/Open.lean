import LosslessAudio.Bits

/-!
# Files open for writing

What is written to a file waits in a buffer until the buffer is full, the place of writing is
moved, or the file is closed.  `OpenFile` holds what has reached the file, the place of writing,
and what still waits; `OpenFile.close` is the file that results.

What a file holds in the end does not depend on when the buffer is emptied: a flush does not change
it (`close_flush`), and a write changes it as if there were no buffer (`close_write`).
-/

set_option autoImplicit false

namespace LosslessAudio

/-- A file open for writing. -/
structure OpenFile where
  /-- What has reached the file. -/
  contents : Array UInt8
  /-- Where the waiting bytes belong. -/
  position : Nat
  /-- What waits to be written. -/
  pending : Array UInt8
  deriving DecidableEq, Repr

namespace OpenFile

/-- How many bytes wait at most. -/
def capacity : Nat := 8192

/-- Writes `data` over `contents` at `position`.  A gap behind the end is filled with zeros. -/
def overwrite (contents : Array UInt8) (position : Nat) (data : Array UInt8) : Array UInt8 :=
  if data.size = 0 then contents
  else if position = contents.size then contents ++ data
  else
    contents.extract 0 position ++ Array.replicate (position - contents.size) 0 ++ data ++
      contents.extract (position + data.size) contents.size

/-- A file without contents. -/
def empty : OpenFile :=
  ⟨#[], 0, #[]⟩

variable (f : OpenFile)

/-- The place where the next byte belongs. -/
def endPosition : Nat :=
  f.position + f.pending.size

/-- Writes out what waits. -/
def flush : OpenFile :=
  ⟨overwrite f.contents f.position f.pending, f.endPosition, #[]⟩

/-- What the file holds once it is closed. -/
def close : Array UInt8 :=
  f.flush.contents

/-- Writes `data` behind what was written last.  Data that would not fit into the buffer together
with what waits there forces that out first, and goes past the buffer if it fills it alone. -/
def write (data : Array UInt8) : OpenFile :=
  let f := if f.pending.size + data.size ≤ capacity then f else f.flush
  if data.size < capacity then { f with pending := f.pending ++ data }
  else
    let f := f.flush
    ⟨overwrite f.contents f.position data, f.position + data.size, #[]⟩

/-- Moves the place of writing; what waits is written out first. -/
def seek (position : Nat) : OpenFile :=
  { f.flush with position }

/-! ## What the file holds in the end -/

@[simp] theorem overwrite_empty (contents : Array UInt8) (position : Nat) :
    overwrite contents position #[] = contents := rfl

/-- A byte after writing: the new one where something was written, else the old one, and zero in a
gap. -/
theorem getElem?_overwrite (contents : Array UInt8) (position : Nat) {data : Array UInt8}
    (hdata : data.size ≠ 0) (i : Nat) :
    (overwrite contents position data)[i]? =
      if i < position then (if i < contents.size then contents[i]? else some 0)
      else if i < position + data.size then data[i - position]?
      else contents[i]? := by
  unfold overwrite
  rw [if_neg hdata]
  split
  · grind
  · simp only [Array.getElem?_append, Array.getElem?_extract, Array.getElem?_replicate,
      Array.size_append, Array.size_extract, Array.size_replicate]
    split
    · grind
    · split
      · have : ¬ i < position := by omega
        have : ¬ i < position + data.size := by omega
        rw [if_neg ‹_›, if_neg ‹_›]
        congr 1
        omega
      · rw [Array.getElem?_eq_none (by omega : contents.size ≤ i)]
        grind

theorem size_overwrite (contents : Array UInt8) (position : Nat) {data : Array UInt8}
    (hdata : data.size ≠ 0) :
    (overwrite contents position data).size = max contents.size (position + data.size) := by
  unfold overwrite
  rw [if_neg hdata]
  split <;> grind

/-- Two writes that follow one another are one write. -/
theorem overwrite_overwrite (contents : Array UInt8) (position : Nat) (xs ys : Array UInt8) :
    overwrite (overwrite contents position xs) (position + xs.size) ys =
      overwrite contents position (xs ++ ys) := by
  by_cases hx : xs.size = 0
  · rw [Array.size_eq_zero_iff.1 hx]
    simp
  by_cases hy : ys.size = 0
  · rw [Array.size_eq_zero_iff.1 hy]
    simp
  have hxy : (xs ++ ys).size ≠ 0 := by rw [Array.size_append]; omega
  apply Array.ext_getElem?
  intro i
  simp only [getElem?_overwrite _ _ hx, getElem?_overwrite _ _ hy, getElem?_overwrite _ _ hxy,
    size_overwrite _ _ hx, Array.size_append]
  grind

@[simp] theorem endPosition_flush : f.flush.endPosition = f.endPosition := rfl

@[simp] theorem close_flush : f.flush.close = f.close := rfl

@[simp] theorem close_write (data : Array UInt8) :
    (f.write data).close = overwrite f.close f.endPosition data := by
  unfold write
  dsimp only
  repeat' split
  all_goals simp [close, flush, endPosition, overwrite_overwrite]

@[simp] theorem endPosition_write (data : Array UInt8) :
    (f.write data).endPosition = f.endPosition + data.size := by
  unfold write
  dsimp only
  repeat' split
  all_goals simp [flush, endPosition, Nat.add_assoc]

@[simp] theorem close_seek (position : Nat) : (f.seek position).close = f.close := rfl

@[simp] theorem endPosition_seek (position : Nat) : (f.seek position).endPosition = position := rfl

end OpenFile

end LosslessAudio
