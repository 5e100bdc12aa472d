import LosslessAudio.Proofs.Steps

/-!
# What nothing depends on

A block is overwritten when it is decoded, so nothing depends on what stands in it before.  The
same holds for the end of a block that is longer than blocks are at the time.  `Stream.blank` puts
zeros in all these places.

* `blank_next` — whose turn it is can be passed on before or after.
* `carryOut_of_blank_eq` — streams that are the same but for these places stay so, whatever
  command is carried out, and it brings about the same.
-/

set_option autoImplicit false

namespace LosslessAudio

/-! ## Blank places -/

namespace ChannelHistory

/-- The history with zeros in its block behind the first `n` samples. -/
def blank (n : Nat) (h : ChannelHistory) : ChannelHistory :=
  { h with block := h.block.take n ++ List.replicate (h.block.length - n) 0 }

variable (h : ChannelHistory)

theorem length_block_blank (n : Nat) : (h.blank n).block.length = h.block.length := by
  show (h.block.take n ++ List.replicate (h.block.length - n) 0).length = _
  rw [List.length_append, List.length_take, List.length_replicate]
  omega

/-- What stands in front of the blank places is still there. -/
theorem take_block_blank {m n : Nat} (hmn : m ≤ n) :
    (h.blank n).block.take m = h.block.take m := by
  show (h.block.take n ++ List.replicate (h.block.length - n) 0).take m = _
  rw [List.take_append, List.take_take, Nat.min_eq_left hmn, List.length_take]
  rcases Nat.le_total n h.block.length with hn | hn
  · rw [Nat.min_eq_left hn, Nat.sub_eq_zero_of_le hmn, List.take_zero, List.append_nil]
  · rw [Nat.sub_eq_zero_of_le hn, List.replicate_zero, List.take_nil, List.append_nil]

/-- Of two blanks the wider one is seen. -/
theorem blank_blank {m n : Nat} (hmn : m ≤ n) : (h.blank n).blank m = h.blank m := by
  rw [blank, take_block_blank h hmn, length_block_blank]
  rfl

/-- What is blank does not belong to the current block. -/
theorem current_blank (n : Nat) : (h.blank n).current n = h.current n :=
  h.take_block_blank (Nat.le_refl n)

/-- Behind a block that was just written there are only zeros. -/
theorem blank_withBlock (block : List Int32) :
    (h.withBlock block).blank block.length =
      { h with block := block ++ List.replicate (h.block.length - block.length) 0 } := by
  have htake : (h.withBlock block).block.take block.length = block := List.take_left' rfl
  have hlength : (h.withBlock block).block.length - block.length =
      h.block.length - block.length := by
    show (block ++ h.block.drop block.length).length - block.length = _
    rw [List.length_append, List.length_drop]
    omega
  rw [blank, htake, hlength]
  rfl

end ChannelHistory

namespace Round

/-- The round with zeros where a block is still to come, and behind the first `n` samples of the
others. -/
def blank (n : Nat) (round : Round) : Round where
  done := round.done.map (·.blank n)
  current := round.current.blank 0
  waiting := round.waiting.map (·.blank 0)

variable (round : Round)

theorem isLast_blank (n : Nat) : (round.blank n).isLast = round.isLast :=
  List.isEmpty_map

/-- The same holds for all histories of a round. -/
theorem map_blank_blank {m n : Nat} (hmn : m ≤ n) (hs : List ChannelHistory) :
    (hs.map (·.blank n)).map (·.blank m) = hs.map (·.blank m) := by
  rw [List.map_map]
  exact List.map_congr_left fun h _ => h.blank_blank hmn

theorem blank_blank {m n : Nat} (hmn : m ≤ n) : (round.blank n).blank m = round.blank m := by
  rw [blank, blank, map_blank_blank hmn, map_blank_blank (Nat.le_refl 0),
    ChannelHistory.blank_blank _ (Nat.le_refl 0)]
  rfl

/-- Whose turn it is can be passed on before or after. -/
theorem blank_next (n : Nat) (h : ChannelHistory) :
    (round.next h).blank n = ((round.blank n).next (h.blank n)).blank n := by
  obtain ⟨done, current, waiting⟩ := round
  cases waiting with
  | cons following waiting => simp [next, blank, ChannelHistory.blank_blank]
  | nil => cases done <;> simp [next, blank, ChannelHistory.blank_blank]

end Round

namespace Stream

/-- The stream with zeros where nothing depends on what stands there. -/
def blank (s : Stream) : Stream :=
  { s with round := s.round.blank s.blockSize }

theorem blank_blank (s : Stream) : s.blank.blank = s.blank := by
  show { s with round := (s.round.blank s.blockSize).blank s.blockSize } = s.blank
  rw [Round.blank_blank _ (Nat.le_refl _)]
  rfl

/-- Shorter blocks leave more places blank. -/
theorem blank_withBlockSize (s : Stream) {n : Nat} (hn : n ≤ s.blockSize) :
    blank { s.blank with blockSize := n } = blank { s with blockSize := n } := by
  show ({ s with blockSize := n, round := (s.round.blank s.blockSize).blank n } : Stream) = _
  rw [Round.blank_blank _ hn]
  rfl

/-! ## Blocks -/

/-- A block that is read replaces what stood in its place, whatever this was. -/
theorem readBlock_of_ok {s : Stream} {c : Command} {h h' : ChannelHistory} {r r' : BitReader}
    (hb : s.readBlock c h r = .ok (h', r')) :
    ∃ context samples, samples.length = s.blockSize ∧
      h' = { h with context }.withBlock samples ∧
      ∀ block, s.readBlock c { h with block } r =
        .ok (({ h with context, block } : ChannelHistory).withBlock samples, r') := by
  rw [readBlock] at hb
  split at hb
  · rename_i hzero
    cases hb
    refine ⟨h.context, _, List.length_replicate, rfl, fun block => ?_⟩
    rw [readBlock, if_pos hzero]
  · rename_i hzero
    obtain ⟨⟨parameter, r₁⟩, hparameter, hb⟩ := bind_eq_ok.1 hb
    obtain ⟨⟨p, r₂⟩, hpredictor, hb⟩ := bind_eq_ok.1 hb
    obtain ⟨⟨past, r₃⟩, hextend, hd⟩ := bind_eq_ok.1 (lift_read_eq_ok.1 hb)
    cases hd
    refine ⟨_, (past.take s.blockSize).reverse.map (· + p.removedOffset _), ?_, rfl,
      fun block => ?_⟩
    · rw [List.length_map, List.length_reverse, List.length_take, length_of_extend hextend]
      exact Nat.min_eq_left (Nat.le_add_right _ _)
    · rw [readBlock, if_neg hzero, hparameter, ok_bind]
      dsimp only
      rw [hpredictor, ok_bind]
      dsimp only
      refine lift_read_eq_ok.2 (bind_eq_ok.2 ⟨_, hextend, rfl⟩)

/-- A block that cannot be read fails in the same way whatever stood in its place. -/
theorem readBlock_of_error {s : Stream} {c : Command} {h : ChannelHistory} {r : BitReader}
    {fault : Fault} (hb : s.readBlock c h r = .error fault) (block : List Int32) :
    s.readBlock c { h with block } r = .error fault := by
  rw [readBlock] at hb ⊢
  split at hb
  · cases hb
  rename_i hzero
  rw [if_neg hzero]
  rcases bind_eq_error.1 hb with hb | ⟨x, hparameter, hb⟩
  · exact bind_eq_error.2 (.inl hb)
  rcases bind_eq_error.1 hb with hb | ⟨y, hpredictor, hb⟩
  · exact bind_eq_error.2 (.inr ⟨x, hparameter, bind_eq_error.2 (.inl hb)⟩)
  refine bind_eq_error.2 (.inr ⟨x, hparameter, bind_eq_error.2 (.inr ⟨y, hpredictor, ?_⟩)⟩)
  obtain ⟨e, hd, rfl⟩ := lift_read_eq_error.1 hb
  rcases bind_eq_error.1 hd with hextend | ⟨_, -, hd⟩
  · exact lift_read_eq_error.2 ⟨e, bind_eq_error.2 (.inl hextend), rfl⟩
  · cases hd

/-- So does a block that is settled. -/
theorem blank_settleBlock {s : Stream} {h : ChannelHistory} {samples block : List Int32}
    (hsamples : samples.length = s.blockSize) (hblock : block.length = h.block.length) :
    (s.settleBlock (({ h with block } : ChannelHistory).withBlock samples)).blank s.blockSize =
      (s.settleBlock (h.withBlock samples)).blank s.blockSize := by
  have hlength : (samples.map fun x => Sample.shiftLeft x s.bitshift).length = s.blockSize := by
    rw [List.length_map, hsamples]
  rw [settleBlock_withBlock hsamples, settleBlock_withBlock hsamples, ← hlength,
    ChannelHistory.blank_withBlock, ChannelHistory.blank_withBlock]
  dsimp only
  rw [hblock]
  rfl

/-! ## Commands -/

/-- What a frame shows of a history is its current block. -/
theorem ofBlocks_congr {hs hs' : List ChannelHistory} {n : Nat}
    (h : hs.map (·.current n) = hs'.map (·.current n)) :
    Frame.ofBlocks hs n = Frame.ofBlocks hs' n := by
  have hlength : hs.length = hs'.length := by
    have := congrArg List.length h
    rwa [List.length_map, List.length_map] at this
  have hblocks : hs.map (fun h => (h.current n).toArray) =
      hs'.map fun h => (h.current n).toArray := by
    have := congrArg (List.map List.toArray) h
    rwa [List.map_map, List.map_map] at this
  rw [Frame.ofBlocks, Frame.ofBlocks, hblocks, hlength]

/-- A block brings about the same frame, or pause, whatever is blank. -/
theorem blockEffect_blank [Memory] (s : Stream) {h h' : ChannelHistory}
    (hh : h'.blank s.blockSize = h.blank s.blockSize) :
    s.blank.blockEffect (s.blank.round.next h') = s.blockEffect (s.round.next h) := by
  have hcurrent : h'.current s.blockSize = h.current s.blockSize := by
    rw [← h'.current_blank, ← h.current_blank, hh]
  have hlast : s.blank.round.isLast = s.round.isLast := s.round.isLast_blank _
  rw [blockEffect, blockEffect, hlast]
  split
  · rename_i hl
    -- nobody waits, and of the others a frame shows what is not blank
    have hwaiting : s.round.waiting = [] := List.isEmpty_iff.1 hl
    have hchannels : (s.blank.round.next h').channels.map (·.current s.blockSize) =
        (s.round.next h).channels.map (·.current s.blockSize) := by
      have hdone : (s.round.done.map (·.blank s.blockSize)).map (·.current s.blockSize) =
          s.round.done.map (·.current s.blockSize) := by
        rw [List.map_map]
        exact List.map_congr_left fun h _ => h.current_blank _
      rw [Round.channels_next, Round.channels_next, hwaiting]
      show (s.round.done.map (·.blank s.blockSize) ++ h' :: s.round.waiting.map _).map _ = _
      rw [hwaiting, List.map_append, List.map_append, hdone, List.map_cons, List.map_cons,
        hcurrent]
      rfl
    have hlength : (s.blank.round.next h').channels.length = (s.round.next h).channels.length := by
      have := congrArg List.length hchannels
      rwa [List.length_map, List.length_map] at this
    rw [Frame.interleave, Frame.interleave, hlength]
    show (Memory.reserve _ _ >>= fun _ => Except.ok (Frame.ofBlocks _ s.blockSize)).map _ = _
    rw [ofBlocks_congr hchannels]
    rfl
  · rfl

/-- The streams behind a block differ in blank places only. -/
theorem blank_behind (s : Stream) {h h' : ChannelHistory}
    (hh : h'.blank s.blockSize = h.blank s.blockSize) :
    blank { s.blank with round := s.blank.round.next h' } =
      blank { s with round := s.round.next h } := by
  show ({ s with round := ((s.round.blank s.blockSize).next h').blank s.blockSize } : Stream) = _
  rw [Round.blank_next, Round.blank_blank _ (Nat.le_refl _), hh, ← Round.blank_next]
  rfl

/-- A block is decoded in the same way when blank places are overwritten first. -/
theorem decodeChannel_blank_of_ok [Memory] {s s' : Stream} {c : Command} {e : Command.Effect}
    {r r' : BitReader} (h : s.decodeChannel c r = .ok (e, s', r')) :
    ∃ t', s.blank.decodeChannel c r = .ok (e, t', r') ∧ t'.blank = s'.blank := by
  obtain ⟨⟨h', r₁⟩, hb, h⟩ := bind_eq_ok.1 h
  obtain ⟨effect, heffect, h⟩ := bind_eq_ok.1 h
  cases h
  obtain ⟨context, samples, hsamples, rfl, hread⟩ := readBlock_of_ok hb
  have hlength : (s.round.current.blank 0).block.length = s.round.current.block.length :=
    s.round.current.length_block_blank 0
  have hsettle := blank_settleBlock (s := s) (h := { s.round.current with context }) hsamples
    hlength
  refine ⟨_, bind_eq_ok.2 ⟨_, hread _, bind_eq_ok.2 ⟨_, ?_, rfl⟩⟩, s.blank_behind hsettle⟩
  exact (s.blockEffect_blank hsettle).trans heffect

theorem decodeChannel_blank_of_error [Memory] {s : Stream} {c : Command} {r : BitReader}
    {fault : Fault}
    (h : s.decodeChannel c r = .error fault) : s.blank.decodeChannel c r = .error fault := by
  rcases bind_eq_error.1 h with hb | ⟨⟨h', r₁⟩, hb, h⟩
  · exact bind_eq_error.2 (.inl (readBlock_of_error hb _))
  rcases bind_eq_error.1 h with heffect | ⟨_, -, h⟩
  · obtain ⟨context, samples, hsamples, rfl, hread⟩ := readBlock_of_ok hb
    have hlength : (s.round.current.blank 0).block.length = s.round.current.block.length :=
      s.round.current.length_block_blank 0
    have hsettle := blank_settleBlock (s := s) (h := { s.round.current with context }) hsamples
      hlength
    exact bind_eq_error.2 (.inr ⟨_, hread _, bind_eq_error.2 (.inl
      ((s.blockEffect_blank hsettle).trans heffect))⟩)
  · cases h

/-- So is every other command carried out. -/
theorem execute_blank_of_ok [Memory] {s s' : Stream} {c : Command} {e : Command.Effect}
    {r r' : BitReader} (h : (s.execute c r).outcome = .ok (e, s', r')) :
    ∃ t', (s.blank.execute c r).outcome = .ok (e, t', r') ∧ t'.blank = s'.blank := by
  cases c
  case verbatim =>
    rw [outcome_execute_verbatim] at h ⊢
    obtain ⟨x, hskip, h⟩ := bind_eq_ok.1 h
    cases h
    exact ⟨s.blank, bind_eq_ok.2 ⟨x, hskip, rfl⟩, s.blank_blank⟩
  case bitshift =>
    rw [outcome_execute_bitshift] at h ⊢
    obtain ⟨x, hread, h⟩ := bind_eq_ok.1 h
    cases h
    exact ⟨_, bind_eq_ok.2 ⟨x, hread, rfl⟩,
      congrArg (fun t : Stream => { t with bitshift := x.1 }) s.blank_blank⟩
  case blockSize =>
    rw [outcome_execute_blockSize] at h ⊢
    obtain ⟨⟨n, r₁⟩, hread, h⟩ := bind_eq_ok.1 h
    cases h
    obtain ⟨_, -, hn⟩ := bind_eq_ok.1 hread
    obtain ⟨_, hle, hn⟩ := bind_eq_ok.1 hn
    obtain ⟨_, -, hn⟩ := bind_eq_ok.1 hn
    cases hn
    exact ⟨_, bind_eq_ok.2 ⟨_, hread, rfl⟩, s.blank_withBlockSize (ensure_eq_ok.1 hle)⟩
  case quit =>
    rw [outcome_execute_quit] at h ⊢
    cases h
    exact ⟨s.blank, rfl, s.blank_blank⟩
  all_goals
    rw [outcome_execute_of_isAudio (by rfl)] at h ⊢
    exact decodeChannel_blank_of_ok h

/-- A command that fails does so whatever the blank places hold. -/
theorem execute_blank_of_error [Memory] {s : Stream} {c : Command} {r : BitReader} {fault : Fault}
    (h : (s.execute c r).outcome = .error fault) :
    (s.blank.execute c r).outcome = .error fault := by
  cases c
  case verbatim =>
    rw [outcome_execute_verbatim] at h ⊢
    rcases bind_eq_error.1 h with hskip | ⟨_, -, h⟩
    · exact bind_eq_error.2 (.inl hskip)
    · cases h
  case bitshift =>
    rw [outcome_execute_bitshift] at h ⊢
    rcases bind_eq_error.1 h with hread | ⟨_, -, h⟩
    · exact bind_eq_error.2 (.inl hread)
    · cases h
  case blockSize =>
    rw [outcome_execute_blockSize] at h ⊢
    rcases bind_eq_error.1 h with hread | ⟨_, -, h⟩
    · exact bind_eq_error.2 (.inl hread)
    · cases h
  case quit =>
    rw [outcome_execute_quit] at h
    cases h
  all_goals
    rw [outcome_execute_of_isAudio (by rfl)] at h ⊢
    exact decodeChannel_blank_of_error h

/-- Blank places may be overwritten before a command is read and carried out. -/
theorem carryOut_blank_of_ok [Memory] {s s' : Stream} {e : Command.Effect} {r r' : BitReader}
    (h : s.carryOut r = .ok ((e, s'), r')) :
    ∃ t', s.blank.carryOut r = .ok ((e, t'), r') ∧ t'.blank = s'.blank := by
  obtain ⟨c, r₁, hc, he⟩ := carryOut_eq_ok.1 h
  obtain ⟨t', ht, hblank⟩ := execute_blank_of_ok he
  exact ⟨t', carryOut_eq_ok.2 ⟨c, r₁, hc, ht⟩, hblank⟩

theorem carryOut_blank_of_error [Memory] {s : Stream} {r : BitReader} {fault : Fault}
    (h : s.carryOut r = .error fault) : s.blank.carryOut r = .error fault := by
  rcases carryOut_eq_error.1 h with hc | ⟨c, r₁, hc, he⟩
  · exact carryOut_eq_error.2 (.inl hc)
  · exact carryOut_eq_error.2 (.inr ⟨c, r₁, hc, execute_blank_of_error he⟩)

/-- **Nothing depends on blank places.** -/
theorem carryOut_of_blank_eq [Memory] {s t s' : Stream} (hst : t.blank = s.blank)
    {e : Command.Effect} {r r' : BitReader} (h : s.carryOut r = .ok ((e, s'), r')) :
    ∃ t', t.carryOut r = .ok ((e, t'), r') ∧ t'.blank = s'.blank := by
  obtain ⟨u, hu, hblank⟩ := carryOut_blank_of_ok h
  rw [← hst] at hu
  cases ht : t.carryOut r with
  | error fault =>
    rw [carryOut_blank_of_error ht] at hu
    cases hu
  | ok x =>
    obtain ⟨⟨e', t'⟩, r''⟩ := x
    obtain ⟨u', hu', hblank'⟩ := carryOut_blank_of_ok ht
    rw [hu] at hu'
    cases hu'
    exact ⟨t', rfl, hblank'.symm.trans hblank⟩

/-- Nor does a failure depend on them. -/
theorem error_carryOut_of_blank_eq [Memory] {s t : Stream} (hst : t.blank = s.blank) {r : BitReader}
    {fault : Fault} (h : s.carryOut r = .error fault) : t.carryOut r = .error fault := by
  have hu := carryOut_blank_of_error h
  rw [← hst] at hu
  cases ht : t.carryOut r with
  | error fault' =>
    rw [carryOut_blank_of_error ht] at hu
    exact hu
  | ok x =>
    obtain ⟨⟨e', t'⟩, r''⟩ := x
    obtain ⟨u', hu', -⟩ := carryOut_blank_of_ok ht
    rw [hu] at hu'
    cases hu'

end Stream

end LosslessAudio
