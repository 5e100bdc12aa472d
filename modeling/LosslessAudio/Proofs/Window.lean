import LosslessAudio.Proofs.Playback
import LosslessAudio.Proofs.Row

/-!
# A window on the input

`PendingInput` is a list of bytes that others are added to and taken from.  A program has one buffer
for them, and a place in it where the pending bytes begin; what lies before is used up.  Before the
buffer would have to grow it moves the pending bytes to the front, so when this happens depends on
how much memory it has.

As long as the place lies within the buffer (`InBounds`), every operation has an answer and does to
`Window.pending` what `PendingInput` says (`append?_eq` and its companions), whatever the memory.
-/

set_option autoImplicit false

namespace LosslessAudio

/-- The byte buffer. -/
structure Window where
  data : Bytes
  /-- The place of the first pending byte; the bytes before it are used up. -/
  start : Nat
  /-- How many bits of the first pending byte are used up. -/
  bitOffset : Nat
  /-- No more bytes than this are pending. -/
  frameSize : Nat
  deriving DecidableEq, Repr

namespace Window

/-- A buffer before the first input. -/
def empty (frameSize : Nat) : Window :=
  ⟨[], 0, 0, max PendingInput.minimalFrameSize frameSize⟩

variable (w : Window)

/-- The input that is pending. -/
def pending : PendingInput :=
  ⟨w.data.drop w.start, w.bitOffset, w.frameSize⟩

/-- How many bytes are pending. -/
def length? : Option Nat :=
  Access.minus? w.data.length w.start

/-- Moves the pending bytes to the front. -/
def compact? : Option Window := do
  let data ← Access.slice? w.data w.start w.data.length
  return { w with data, start := 0 }

/-- Makes room for some more bytes in a buffer that has memory for `capacity` bytes. -/
def makeRoom? (capacity bytes : Nat) : Option Window :=
  if capacity < w.data.length + bytes ∧ 0 < w.start then w.compact? else some w

/-- Takes as many of the offered bytes as fit, if there is room for what is pending then; the answer
starts with their number. -/
def append? [Memory] (capacity : Nat) (offered : Bytes) :
    Option (Except Fault (Nat × Window)) := do
  let length ← w.length?
  let n := min offered.length (w.frameSize - length)
  if n = 0 then return .ok (0, w)
  else
    let w ← w.makeRoom? capacity n
    match Memory.reserve .input (length + n) with
    | .error fault => return .error fault
    | .ok () =>
      let taken ← Access.slice? offered 0 n
      return .ok (n, { w with data := w.data ++ taken })

/-- Whether a pass may run. -/
def isReady? (flush : Bool) : Option Bool := do
  let length ← w.length?
  return flush || decide (w.frameSize ≤ length)

/-- A reader of the pending bytes behind the bits that are used up.  That it cannot be had should be
impossible. -/
def reader? : Option BitReader := do
  let pending ← Access.slice? w.data w.start w.data.length
  ((BitReader.ofBytes pending).skip w.bitOffset).toOption

/-- Uses up the bytes before bit `position` of the pending input.  That there are fewer of them
should be impossible. -/
def consume? (position : Nat) : Option Window := do
  let length ← w.length?
  let start := w.start + position / 8
  if length < position / 8 then none
  else if start = w.data.length then
    some { w with data := [], start := 0, bitOffset := position % 8 }
  else some { w with start, bitOffset := position % 8 }

/-- Doubles the frame size. -/
def grow : Window :=
  { w with frameSize := min PendingInput.maxFrameSize (2 * w.frameSize) }

/-- Drops everything. -/
def clear : Window :=
  { w with data := [], start := 0, bitOffset := 0 }

/-! ## What becomes of the pending bytes -/

/-- The pending bytes begin within the buffer, or at its end. -/
def InBounds : Prop :=
  w.start ≤ w.data.length

variable {w}

theorem length?_eq (h : w.InBounds) : w.length? = some w.pending.length := by
  rw [length?, Access.minus?_of_le h, PendingInput.length, pending, List.length_drop]

theorem slice?_eq (h : w.InBounds) :
    Access.slice? w.data w.start w.data.length = some w.pending.bytes := by
  rw [Access.slice?, if_pos ⟨h, Nat.le_refl _⟩,
    List.take_of_length_le (Nat.le_of_eq List.length_drop)]
  rfl

theorem isReady?_eq (h : w.InBounds) (flush : Bool) :
    w.isReady? flush = some (w.pending.isReady flush) :=
  Access.bind_of_eq (length?_eq h) rfl

theorem reader?_eq (h : w.InBounds) {r : BitReader} (hr : w.pending.reader = .ok r) :
    w.reader? = some r := by
  refine Access.bind_of_eq (slice?_eq h) ?_
  rw [PendingInput.reader] at hr
  show ((BitReader.ofBytes w.pending.bytes).skip w.pending.bitOffset).toOption = _
  rw [hr]
  rfl

/-- Moving the pending bytes changes nothing about them. -/
theorem makeRoom?_eq (h : w.InBounds) (capacity bytes : Nat) :
    ∃ w', w.makeRoom? capacity bytes = some w' ∧ w'.pending = w.pending ∧ w'.InBounds := by
  rw [makeRoom?]
  split
  · exact ⟨_, Access.bind_of_eq (slice?_eq h) rfl, rfl, Nat.zero_le _⟩
  · exact ⟨w, rfl, rfl, h⟩

theorem pending_append (h : w.InBounds) (bytes : Bytes) :
    pending { w with data := w.data ++ bytes } =
      { w.pending with bytes := w.pending.bytes ++ bytes } :=
  congrArg (PendingInput.mk · w.bitOffset w.frameSize) (List.drop_append_of_le_length h)

/-- **The same bytes are taken whatever the buffer has memory for.** -/
theorem append?_eq [Memory] (h : w.InBounds) (capacity : Nat) (offered : Bytes) :
    ∃ w' : Window, w'.pending = (w.pending.fill offered).2 ∧ w'.InBounds ∧
      w.append? capacity offered = some ((w.pending.append offered).map fun x => (x.1, w')) := by
  have htaken : offered.take w.pending.room =
      offered.take (min offered.length w.pending.room) := by
    rw [Nat.min_comm, ← List.take_take, List.take_length]
  have hlength : (offered.take (min offered.length w.pending.room)).length =
      min offered.length w.pending.room := List.length_take_of_le (Nat.min_le_left _ _)
  have hfilled := PendingInput.length_fill (p := w.pending) offered
  rw [PendingInput.append_eq, hfilled, PendingInput.fill, htaken]
  dsimp only
  rw [hlength]
  by_cases hzero : min offered.length w.pending.room = 0
  · refine ⟨w, ?_, h, Access.bind_of_eq (length?_eq h) ((if_pos hzero).trans ?_)⟩
    · rw [hzero, List.take_zero, List.append_nil]
    · rw [hzero]
      rfl
  · obtain ⟨w', hroom, hpending, hw'⟩ :=
      makeRoom?_eq h capacity (min offered.length w.pending.room)
    have hslice : Access.slice? offered 0 (min offered.length w.pending.room) =
        some (offered.take (min offered.length w.pending.room)) :=
      if_pos ⟨Nat.zero_le _, Nat.min_le_left _ _⟩
    refine ⟨{ w' with data := w'.data ++ offered.take (min offered.length w.pending.room) },
      ?_, ?_,
      Access.bind_of_eq (length?_eq h) ((if_neg hzero).trans (Access.bind_of_eq hroom ?_))⟩
    · rw [pending_append hw', hpending]
    · show w'.start ≤ (w'.data ++ _).length
      rw [List.length_append]
      exact Nat.le_trans hw' (Nat.le_add_right _ _)
    · rw [if_pos (Nat.pos_of_ne_zero hzero),
        show w.frameSize - w.pending.length = w.pending.room from rfl]
      cases Memory.reserve .input (w.pending.length + min offered.length w.pending.room) with
      | error fault => rfl
      | ok _ => exact Access.bind_of_eq hslice rfl

/-- **No pass uses up more than there is.** -/
theorem consume?_eq (h : w.InBounds) {position k : Nat} {p : PendingInput}
    (hp : w.pending.consume position = (.ok k, p)) :
    ∃ w', w.consume? position = some w' ∧ w'.pending = p ∧ w'.InBounds := by
  have hlength : w.pending.length = w.data.length - w.start := List.length_drop
  rw [PendingInput.consume] at hp
  split at hp
  · cases hp
  rename_i hle
  cases hp
  have hdrop : (w.data.drop w.start).drop (position / 8) = w.data.drop (w.start + position / 8) :=
    List.drop_drop
  by_cases hend : w.start + position / 8 = w.data.length
  · refine ⟨_, Access.bind_of_eq (length?_eq h) ((if_neg hle).trans (if_pos hend)), ?_,
      Nat.le_refl 0⟩
    show PendingInput.mk [] _ _ = PendingInput.mk ((w.data.drop w.start).drop (position / 8)) _ _
    rw [hdrop, hend, List.drop_length]
    rfl
  · refine ⟨_, Access.bind_of_eq (length?_eq h) ((if_neg hle).trans (if_neg hend)), ?_, ?_⟩
    · show PendingInput.mk (w.data.drop _) _ _ = PendingInput.mk _ _ _
      rw [← hdrop]
      rfl
    · show w.start + position / 8 ≤ w.data.length
      rw [InBounds] at h
      omega

end Window

end LosslessAudio
