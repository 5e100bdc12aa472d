import LosslessAudio.Frame

/-!
# The channels of a frame

Interleaving and taking apart again: the samples that `Frame.channel` finds in a frame of some
blocks are those of the block in question, clipped (`channel_ofBlocks`).
-/

set_option autoImplicit false

namespace LosslessAudio

namespace Frame

section

variable {α : Type} {row : Nat → List α} {k : Nat}

theorem length_flatMap_range (hrow : ∀ i, (row i).length = k) (n : Nat) :
    ((List.range n).flatMap row).length = n * k := by
  induction n with
  | zero => rw [Nat.zero_mul]; rfl
  | succ n ih =>
    rw [List.range_succ, List.flatMap_append, List.length_append, ih, List.flatMap_singleton,
      hrow, Nat.succ_mul]

/-- The entries of rows of equal length, one behind the other. -/
theorem getElem?_flatMap_range (hrow : ∀ i, (row i).length = k) {n i c : Nat} (hi : i < n)
    (hc : c < k) : ((List.range n).flatMap row)[c + i * k]? = (row i)[c]? := by
  induction n with
  | zero => exact absurd hi (Nat.not_lt_zero i)
  | succ n ih =>
    have hlength := length_flatMap_range hrow n
    rw [List.range_succ, List.flatMap_append, List.flatMap_singleton]
    rcases Nat.lt_or_eq_of_le (Nat.le_of_lt_succ hi) with hlt | rfl
    · have hplace : c + i * k < n * k :=
        calc c + i * k < k + i * k := Nat.add_lt_add_right hc _
          _ = (i + 1) * k := by rw [Nat.succ_mul, Nat.add_comm]
          _ ≤ n * k := Nat.mul_le_mul_right k hlt
      rw [List.getElem?_append_left (by rw [hlength]; exact hplace), ih hlt]
    · rw [List.getElem?_append_right (by rw [hlength]; exact Nat.le_add_left _ _), hlength,
        Nat.add_sub_cancel]

end

/-- As many places as there are rows lie in one column. -/
theorem count_column {n k c : Nat} (hc : c < k) : (n * k - c + k - 1) / k = n := by
  have hk : 0 < k := by omega
  cases n with
  | zero =>
    rw [Nat.zero_mul, Nat.zero_sub, Nat.zero_add]
    exact Nat.div_eq_of_lt (by omega)
  | succ n =>
    have h : (n + 1) * k - c + k - 1 = (k - 1 - c) + (n + 1) * k := by
      rw [Nat.succ_mul]
      omega
    rw [h, Nat.add_mul_div_right _ _ hk, Nat.div_eq_of_lt (by omega), Nat.zero_add]

/-- **A channel of a frame is the block it was made from**, clipped; where the block is too short,
zeros follow. -/
theorem channel_ofBlocks (hs : List ChannelHistory) (n : Nat) {c : Nat} (hc : c < hs.length) :
    (ofBlocks hs n).channel c =
      (List.range n).map fun i => clip ((hs[c].current n).getD i 0) := by
  have hrow (i : Nat) : ((hs.map fun h => (h.current n).toArray).map fun b =>
      clip (b.getD i 0)).length = hs.length := by
    rw [List.length_map, List.length_map]
  have hstride : max 1 hs.length = hs.length := Nat.max_eq_right (by omega)
  rw [channel, ofBlocks]
  dsimp only
  rw [hstride, List.size_toArray, length_flatMap_range hrow, count_column hc]
  refine List.map_congr_left fun i hi => ?_
  have hi := List.mem_range.1 hi
  rw [Array.getD_eq_getD_getElem?, List.getElem?_toArray, getElem?_flatMap_range hrow hi hc]
  simp [hc]

/-- The channels of a frame, the first one first. -/
def rows (frame : Frame) : List (List Int16) :=
  (List.range frame.channels).map frame.channel

/-- What fits in 16 bits is not clipped. -/
theorem clip_toInt32 (x : Int16) : clip x.toInt32 = x := by
  have hlow := x.le_toInt
  have hhigh := x.toInt_lt
  have hmin : (-32768 : Int32).toInt = -32768 := rfl
  have hmax : (32767 : Int32).toInt = 32767 := rfl
  rw [clip, if_neg, if_neg, Int16.toInt16_toInt32]
  · rw [Int32.lt_iff_toInt_lt, hmax, Int16.toInt_toInt32]
    omega
  · rw [Int32.lt_iff_toInt_lt, hmin, Int16.toInt_toInt32]
    omega

/-- A frame of 16-bit blocks has these blocks as its channels. -/
theorem rows_ofBlocks {hs : List ChannelHistory} {n : Nat} {blocks : List (List Int16)}
    (h : hs.map (·.current n) = blocks.map fun block => block.map Int16.toInt32)
    (hlength : ∀ block ∈ blocks, block.length = n) : (ofBlocks hs n).rows = blocks := by
  have hcount : hs.length = blocks.length := by
    have := congrArg List.length h
    rwa [List.length_map, List.length_map] at this
  refine List.ext_getElem ?_ fun c hc hc' => ?_
  · rw [rows, List.length_map, List.length_range]
    exact hcount
  · have hblock : hs[c].current n = blocks[c].map Int16.toInt32 := by
      have hget := congrArg (·[c]?) h
      simpa [hc', hcount] using hget
    have hc₁ : c < hs.length := hcount ▸ hc'
    simp only [rows, List.getElem_map, List.getElem_range]
    rw [channel_ofBlocks hs n hc₁, hblock]
    refine List.ext_getElem ?_ fun i hi hi' => ?_
    · rw [List.length_map, List.length_range, hlength _ (List.getElem_mem hc')]
    · rw [List.getElem_map, List.getElem_range, List.getD_eq_getElem?_getD, List.getElem?_map,
        List.getElem?_eq_getElem hi', Option.map_some, Option.getD_some, clip_toInt32]

end Frame

end LosslessAudio
