import LosslessAudio.Proofs.Saturation

/-!
# Interleaving and taking apart

A frame holds the blocks of its channels sample by sample, and `Frame.channel` takes one of them out
again.  Nothing of the blocks is lost on the way but what does not fit into 16 bits, and nothing
else of the histories gets in: a frame and its blocks, brought into range, determine each other.

* `Frame.rows_ofBlocks_toInt` — the channels of a frame are the blocks it was made of.
* `Frame.samples_ofBlocks_toInt` — its samples depend on nothing but these blocks.
* `Frame.interleaving_undone` puts the two together.
-/

set_option autoImplicit false

namespace LosslessAudio

namespace Frame

/-- The current blocks of some channels in whole numbers, each replaced by the nearest one that has
16 bits. -/
def saturatedBlocks (hs : List ChannelHistory) (n : Nat) : List (List Int) :=
  hs.map fun h => (h.current n).map fun x => saturated x.toInt

variable {hs hs' : List ChannelHistory} {n n' : Nat}

theorem length_saturatedBlocks (hs : List ChannelHistory) (n : Nat) :
    (saturatedBlocks hs n).length = hs.length :=
  List.length_map _

/-- Where the histories have blocks of that length, so long are their blocks. -/
theorem length_of_mem_saturatedBlocks (hfits : ∀ h ∈ hs, n ≤ h.block.length) {block : List Int}
    (hblock : block ∈ saturatedBlocks hs n) : block.length = n := by
  obtain ⟨h, hh, rfl⟩ := List.mem_map.1 hblock
  rw [List.length_map, ChannelHistory.current, List.length_take]
  exact Nat.min_eq_left (hfits h hh)

/-- The length of blocks can be told from them, if there are any. -/
theorem length_eq_of_saturatedBlocks_eq (hne : hs ≠ []) (hfits : ∀ h ∈ hs, n ≤ h.block.length)
    (hfits' : ∀ h ∈ hs', n' ≤ h.block.length)
    (heq : saturatedBlocks hs' n' = saturatedBlocks hs n) : n' = n := by
  obtain ⟨h, hh⟩ := List.exists_mem_of_ne_nil hs hne
  have hmem : (h.current n).map (fun x => saturated x.toInt) ∈ saturatedBlocks hs n :=
    List.mem_map_of_mem hh
  rw [← length_of_mem_saturatedBlocks hfits' (heq ▸ hmem), length_of_mem_saturatedBlocks hfits hmem]

/-- A channel of a frame is the block it was made of. -/
theorem channel_ofBlocks_toInt {h : ChannelHistory} {c : Nat} (hc : hs[c]? = some h)
    (hfits : n ≤ h.block.length) :
    ((ofBlocks hs n).channel c).map Int16.toInt =
      (h.current n).map fun x => saturated x.toInt := by
  obtain ⟨hlt, rfl⟩ := List.getElem?_eq_some_iff.1 hc
  have hlength : (hs[c].current n).length = n := by
    rw [ChannelHistory.current, List.length_take]
    exact Nat.min_eq_left hfits
  rw [channel_ofBlocks hs n hlt, List.map_map]
  refine List.ext_getElem (by simp [hlength]) fun i hi hi' => ?_
  have hi : i < (hs[c].current n).length := by simpa using hi'
  simp [toInt_clip, List.getElem?_eq_getElem hi]

/-- **The channels of a frame are the blocks it was made of.** -/
theorem rows_ofBlocks_toInt (hfits : ∀ h ∈ hs, n ≤ h.block.length) :
    (ofBlocks hs n).rows.map (·.map Int16.toInt) = saturatedBlocks hs n := by
  refine List.ext_getElem (by simp [rows, saturatedBlocks, ofBlocks]) fun c hc hc' => ?_
  have hlt : c < hs.length := by simpa [saturatedBlocks] using hc'
  simpa [rows, saturatedBlocks] using
    channel_ofBlocks_toInt (List.getElem?_eq_getElem hlt) (hfits _ (List.getElem_mem hlt))

/-- **The samples of a frame depend on nothing but its blocks**, brought into range. -/
theorem samples_ofBlocks_toInt (hs : List ChannelHistory) (n : Nat) :
    (ofBlocks hs n).samples.map Int16.toInt =
      (List.range n).flatMap fun i => (saturatedBlocks hs n).map fun block => block.getD i 0 := by
  rw [ofBlocks, List.map_flatMap]
  refine congrArg (List.range n).flatMap (funext fun i => ?_)
  rw [List.map_map, List.map_map, saturatedBlocks, List.map_map]
  refine List.map_congr_left fun h _ => ?_
  have hzero : saturated (0 : Int32).toInt = 0 := rfl
  simp only [Function.comp_apply, toInt_clip, Array.getD_eq_getD_getElem?, List.getElem?_toArray,
    List.getD_eq_getElem?_getD, List.getElem?_map]
  cases (h.current n)[i]? with
  | none => exact hzero
  | some x => rfl

/-- So frames of the same blocks are the same. -/
theorem ofBlocks_eq_of_saturatedBlocks (heq : saturatedBlocks hs' n = saturatedBlocks hs n) :
    ofBlocks hs' n = ofBlocks hs n := by
  have hcount : hs'.length = hs.length := by
    rw [← length_saturatedBlocks hs' n, heq, length_saturatedBlocks]
  have hsamples : (ofBlocks hs' n).samples = (ofBlocks hs n).samples := by
    refine (List.map_inj_right fun _ _ => Int16.toInt_inj.1).1 ?_
    rw [samples_ofBlocks_toInt, samples_ofBlocks_toInt, heq]
  rw [ofBlocks, ofBlocks] at hsamples ⊢
  simpa [hcount] using hsamples

theorem interleave_of_room [Memory] (hroom : Memory.reserve .frame (hs.length * n) = .ok ()) :
    interleave hs n = .ok (ofBlocks hs n) := by
  rw [interleave, hroom]
  rfl

/-- **Interleaving is undone by taking the channels out.**  If the room for it can be reserved, a
frame is made of any channels whose histories reach that far; it has as many samples as there are in
the blocks, its channels are these blocks with every sample brought to the nearest 16-bit number,
and another such frame is the same exactly if its blocks are. -/
theorem interleaving_undone [Memory] (hne : hs ≠ []) (hfits : ∀ h ∈ hs, n ≤ h.block.length)
    (hroom : Memory.reserve .frame (hs.length * n) = .ok ()) :
    ∃ f, interleave hs n = .ok f ∧ f.channels = hs.length ∧ f.blockSize = n ∧
      f.samples.length = hs.length * n ∧
      (∀ c h, hs[c]? = some h →
        (f.channel c).map Int16.toInt = (h.current n).map fun x => saturated x.toInt) ∧
      ∀ (hs' : List ChannelHistory) (n' : Nat), (∀ h ∈ hs', n' ≤ h.block.length) →
        Memory.reserve .frame (hs'.length * n') = .ok () →
        (interleave hs' n' = .ok f ↔ saturatedBlocks hs' n' = saturatedBlocks hs n) := by
  refine ⟨ofBlocks hs n, interleave_of_room hroom, rfl, rfl, ?_, ?_, ?_⟩
  · have hcount := congrArg List.length (samples_ofBlocks_toInt hs n)
    rwa [List.length_map, length_flatMap_range (k := hs.length) (by simp [saturatedBlocks]),
      Nat.mul_comm] at hcount
  · intro c h hc
    exact channel_ofBlocks_toInt hc (hfits h (List.mem_of_getElem? hc))
  · intro hs' n' hfits' hroom'
    rw [interleave_of_room hroom', Except.ok.injEq]
    constructor
    · intro heq
      rw [← rows_ofBlocks_toInt hfits', heq, rows_ofBlocks_toInt hfits]
    · intro heq
      obtain rfl := length_eq_of_saturatedBlocks_eq hne hfits hfits' heq
      exact ofBlocks_eq_of_saturatedBlocks heq

/-- Two channels with samples beyond both ends of the 16-bit numbers; the blocks are longer than
what is taken of them. -/
def loudChannels (loudest : Int32) : List ChannelHistory :=
  [⟨[7, 7, 7], [1, loudest, 99], [0]⟩, ⟨[0, 0, 0], [-40000, -3, loudest], [0]⟩]

open scoped Memory in
theorem interleaving_undone_loudChannels :
    loudChannels 40000 ≠ [] ∧ (∀ h ∈ loudChannels 40000, 2 ≤ h.block.length) ∧
      Memory.reserve .frame ((loudChannels 40000).length * 2) = .ok () ∧
      ∃ f, interleave (loudChannels 40000) 2 = .ok f ∧ f.samples.length = 2 * 2 ∧
        (f.channel 0).map Int16.toInt = [1, 32767] ∧
        interleave (loudChannels 50000) 2 = .ok f ∧ interleave (loudChannels 5) 2 ≠ .ok f := by
  have hne (x : Int32) : loudChannels x ≠ [] := List.cons_ne_nil _ _
  have hfits (x : Int32) : ∀ h ∈ loudChannels x, 2 ≤ h.block.length := by
    simp [loudChannels]
  have hroom (x : Int32) :
      Memory.reserve .frame ((loudChannels x).length * 2) = .ok () := rfl
  obtain ⟨f, hf, -, -, hlength, hchannel, hsame⟩ :=
    interleaving_undone (hne 40000) (hfits 40000) (hroom 40000)
  refine ⟨hne _, hfits _, hroom _, f, hf, hlength, ?_, ?_, ?_⟩
  · exact (hchannel 0 _ rfl).trans (by decide)
  · exact (hsame _ 2 (hfits _) (hroom _)).2 (by decide)
  · exact fun h => absurd ((hsame _ 2 (hfits _) (hroom _)).1 h) (by decide)

end Frame

end LosslessAudio
