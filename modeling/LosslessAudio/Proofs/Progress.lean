import LosslessAudio.Proofs.Refusal
import LosslessAudio.Proofs.Resumption

/-!
# Every call gets on

A caller who offers input again and again relies on every call to get something done.  This file
says what a call does to a decoder that still decodes, once and for all (`Decoder.Moves`): it fails,
takes all of the input and waits for more, ends the stream, uses up some of what is pending, or
makes room in a full buffer.

* `moves_decode` — there is nothing else that a call can do.
* `Decoder.remaining` — what is left to do; every call after which there is a next one does some of
  it (`Moves.remaining_lt`).
* `Ledger.sound_run` — what holds of the pending input between two calls, whatever a caller does.
-/

set_option autoImplicit false

namespace LosslessAudio

namespace PendingInput

/-- `p'` is what is left of the pending input `p` when its next `n` bits are used up. -/
structure Leaves (p : PendingInput) (n : Nat) (p' : PendingInput) : Prop where
  unread : p'.unread = p.unread.drop n
  le_unread : n ≤ p.unread.length
  length_le : p'.length ≤ p.length

variable {p p' : PendingInput} {n : Nat}

theorem Leaves.length_unread (h : p.Leaves n p') : p'.unread.length + n = p.unread.length := by
  rw [h.unread, List.length_drop]
  exact Nat.sub_add_cancel h.le_unread

theorem Leaves.grow (h : p.Leaves n p') : p.Leaves n p'.grow :=
  ⟨h.unread, h.le_unread, h.length_le⟩

/-- A pass leaves what lies behind the place where it ended. -/
theorem leaves_consume (hs : p.Sound) {r' : BitReader} {k : Nat}
    (hn : (⟨p.bitOffset, p.unread⟩ : BitReader).Passes n r')
    (hconsume : p.consume r'.position = (.ok k, p')) :
    p.Leaves n p' ∧ p'.Sound ∧ p'.frameSize = p.frameSize := by
  obtain ⟨_, _, hconsume', hunread, ⟨hoffset, hbit⟩, hlength, hframe⟩ :=
    consume_of_passes hs.bitOffset_le hn
  rw [hconsume] at hconsume'
  obtain ⟨-, rfl⟩ := Prod.mk.inj hconsume'
  obtain ⟨hle, rfl⟩ := hn
  exact ⟨⟨hunread, hle, hlength⟩, ⟨hoffset, hframe ▸ hs.minimal_le,
    hframe ▸ Nat.le_trans hlength hs.length_le, hbit⟩, hframe⟩

theorem length_eq_of_isReady (hs : p.Sound) (h : p.isReady false = true) :
    p.length = p.frameSize := by
  rw [isReady, Bool.false_or, decide_eq_true_eq] at h
  exact Nat.le_antisymm hs.length_le h

theorem consumed_le (p : PendingInput) (piece : Bytes) : (p.fill piece).1 ≤ piece.length :=
  consumed_fill (p := p) piece ▸ Nat.min_le_right _ _

/-- Where a pass may not run, there was room for all of the input. -/
theorem consumed_of_not_isReady (hs : p.Sound) {piece : Bytes}
    (h : (p.fill piece).2.isReady false = false) : (p.fill piece).1 = piece.length := by
  have hlength := length_fill (p := p) piece
  have htaken := consumed_fill (p := p) piece
  rw [isReady, Bool.false_or, decide_eq_false_iff_not, frameSize_fill] at h
  rw [room] at htaken
  have := hs.length_le
  omega

end PendingInput

/-! ## One call -/

namespace Decoder

variable {d d' : Decoder} {offered : Option Bytes} {out : Output}

/-- The pending input of a call that has taken what it takes. -/
def filled (d : Decoder) (offered : Option Bytes) : PendingInput :=
  (d.input.fill (offered.getD [])).2

/-- How many bytes a call takes. -/
def taken (d : Decoder) (offered : Option Bytes) : Nat :=
  (d.input.fill (offered.getD [])).1

/-- There is room in the address space for the input, in one buffer. -/
def Fits (d : Decoder) (offered : Option Bytes) : Prop :=
  ∀ piece ∈ offered, d.input.length + piece.length < PendingInput.maxFrameSize

/-- What a call makes of a decoder that still decodes, and what it answers. -/
inductive Moves (d : Decoder) (offered : Option Bytes) : Decoder × Except Fault Output → Prop
  /-- It gives up. -/
  | fails {d' : Decoder} {fault : Fault} (hc' : d'.condition = .failed) :
      Moves d offered (d', .error fault)
  /-- It takes all of the input, which is not enough for a pass. -/
  | waits (hmore : offered.isSome) (hall : d.taken offered = (offered.getD []).length) :
      Moves d offered ({ d with input := d.filled offered },
        .ok ⟨d.taken offered, .needMoreInput⟩)
  /-- It reads the quit command, or does without one. -/
  | ends {d' : Decoder} (hc' : d'.condition = .finished) :
      Moves d offered (d', .ok ⟨d.taken offered, .noFrame⟩)
  /-- It uses up some bits. -/
  | advances {d' : Decoder} {n : Nat} {status : Status} (hc' : d'.condition = .active)
      (hs' : d'.input.Sound) (hleaves : (d.filled offered).Leaves n d'.input) (hpos : 0 < n)
      (hframe : d'.input.frameSize = d.input.frameSize)
      (hstatus : status ≠ .finished ∧ status ≠ .needMoreInput) :
      Moves d offered (d', .ok ⟨d.taken offered, status⟩)
  /-- The buffer is full and holds too little, and there may be more input. -/
  | grows {d' : Decoder} {n : Nat} (hmore : offered.isSome) (hc' : d'.condition = .active)
      (hs' : d'.input.Sound) (hleaves : (d.filled offered).Leaves n d'.input)
      (hfull : (d.filled offered).length = d.input.frameSize)
      (hframe : d'.input.frameSize = d.input.grow.frameSize)
      (hroom : d'.input.length < d'.input.frameSize) :
      Moves d offered (d', .ok ⟨d.taken offered, .needMoreInput⟩)

theorem sound_filled (hs : d.input.Sound) (offered : Option Bytes) : (d.filled offered).Sound :=
  PendingInput.sound_fill hs _

theorem length_filled (d : Decoder) (offered : Option Bytes) :
    (d.filled offered).length = d.input.length + d.taken offered :=
  PendingInput.length_fill _

theorem taken_le (d : Decoder) (offered : Option Bytes) :
    d.taken offered ≤ (offered.getD []).length :=
  d.input.consumed_le _

/-- The pass of a call, where the header has not been read yet. -/
theorem heads_filled [Memory] (hd : d.stream = none) {flush : Bool} {stream : Option Stream}
    {outcome : Except Fault (Stream.PassEnd × BitReader)}
    (hover : passOver { d with input := d.filled offered } flush
      (resume { d with input := d.filled offered }) = (stream, outcome)) :
    Heads d.failLevel flush ⟨d.input.bitOffset, (d.filled offered).unread⟩ (stream, outcome) :=
  hover ▸ heads_passOver (d := { d with input := d.filled offered }) hd flush _

/-- A pass moves on, unless it ends the stream or has to wait. -/
theorem pos_of_passOver [Memory] (hs : d.input.Sound) {flush : Bool}
    (hready : d.input.isReady flush = true) {ending : Stream.PassEnd} {r' : BitReader} {n : Nat}
    (hover : (d.passOver flush d.resume).2 = .ok (ending, r')) (hn : d.resume.Passes n r')
    (hquit : ending ≠ .quit) (hsuspended : ending ≠ .suspended) : 0 < n := by
  have hfollowed := d.passOver_followedBy flush d.resume (fun _ => (rfl : ([] : List Bool) = []))
  obtain ⟨m, hm, hzero⟩ := hfollowed.passes hover
  have hn := hn.available_eq
  have hm := hm.available_eq
  rw [Nat.pos_iff_ne_zero]
  rintro rfl
  rcases hzero (by omega) with h | h | ⟨rfl, hshort⟩
  · exact hquit h
  · exact hsuspended h
  · exact absurd (not_short_of_isReady hs hready) (Nat.not_le.2 hshort)

/-- **Every call gets on.** -/
theorem moves_decode [Memory] (hc : d.condition = .active) (hs : d.input.Sound)
    (hfits : d.Fits offered) :
    d.Moves offered (d.decode offered).value := by
  have hs' := d.sound_filled hs offered
  have hcalls := calls_decode (fun _ => hs.bitOffset_le) offered
  generalize (d.decode offered).value = answer at hcalls
  rcases hcalls with hc' | hc' | ⟨-, hready, -⟩ | ⟨-, hready, hruns, -⟩ | ⟨-, hready, hruns, -⟩ | -
  · simp [hc] at hc'
  · simp [hc] at hc'
  · rcases offered with _ | piece
    · simp [PendingInput.isReady] at hready
    · exact .waits rfl (PendingInput.consumed_of_not_isReady hs hready)
  · rcases hruns with _ | ⟨hover, hn, hconsume⟩ |
      @⟨stream, ending, r', n, k, p, hover, hn, hconsume, hending⟩
    · obtain ⟨hleaves, hsound, hframe⟩ := PendingInput.leaves_consume hs' hn hconsume
      rcases offered with _ | piece
      · exact absurd (congrArg Prod.snd hover) (passOver_ne_suspended _ _ _)
      · have hmax : _ < PendingInput.maxFrameSize := Nat.lt_of_le_of_lt
          (Nat.add_le_add_left (d.taken_le (some piece)) _) (hfits piece rfl)
        rw [← length_filled] at hmax
        have hmax := Nat.lt_of_le_of_lt hleaves.length_le hmax
        exact .grows rfl hc (PendingInput.sound_grow hsound hmax) hleaves.grow
          (PendingInput.length_eq_of_isReady hs' hready)
          (congrArg (fun size => min PendingInput.maxFrameSize (2 * size)) hframe)
          (PendingInput.length_lt_grow hsound hmax)
    · obtain ⟨hleaves, hsound, hframe⟩ := PendingInput.leaves_consume hs' hn hconsume
      by_cases hquit : ending = .quit
      · subst hquit
        exact .ends rfl
      · have hpos := pos_of_passOver (d := { d with input := d.filled offered }) hs' hready
          (congrArg Prod.snd hover) hn hquit hending
        refine .advances ((if_neg hquit).trans hc) hsound hleaves hpos hframe ⟨?_, ?_⟩
        · cases ending <;> simp [statusOf]
        · exact fun h => hending (statusOf_eq_needMoreInput h)
  · rcases hruns
    exact .fails rfl
  · exact .fails rfl

/-- What is pending and what is left to offer becomes no more by a call. -/
theorem Moves.sound (h : d.Moves offered (d', .ok out)) (hs : d.input.Sound)
    (hc' : d'.condition = .active) :
    d'.input.Sound ∧ d'.input.length ≤ d.input.length + out.consumed ∧
      out.consumed ≤ (offered.getD []).length := by
  have hfilled := d.length_filled offered
  rcases h with _ | _ | hc | ⟨-, hs', hleaves, -⟩ | ⟨-, -, hs', hleaves, -⟩
  · exact ⟨sound_filled hs offered, Nat.le_of_eq hfilled, d.taken_le offered⟩
  · simp [hc] at hc'
  all_goals exact ⟨hs', hfilled ▸ hleaves.length_le, d.taken_le offered⟩

/-- A decoder that answers has not failed. -/
theorem Moves.condition (h : d.Moves offered (d', .ok out)) (hc : d.condition = .active) :
    d'.condition = .active ∨ d'.condition = .finished := by
  rcases h with _ | _ | hc' | hc' | ⟨-, hc', -⟩
  · exact .inl hc
  · exact .inr hc'
  all_goals exact .inl hc'

/-- That the stream has ended is only said by the calls that come later. -/
theorem Moves.status_ne_finished (h : d.Moves offered (d', .ok out)) : out.status ≠ .finished := by
  rcases h with _ | _ | _ | ⟨-, -, -, -, -, hstatus⟩ | _
  case advances => exact hstatus.1
  all_goals simp

/-! ## What is left to do -/

/-- What is left to do: the bits that are pending or offered, and room to make in a full buffer. -/
def remaining (d : Decoder) (offered : Option Bytes) : Nat :=
  d.input.work + 9 * (offered.getD []).length

/-- Every call does some of it, unless it takes all of the input and waits for more. -/
theorem Moves.remaining_lt (h : d.Moves offered (d', .ok out)) (hs : d.input.Sound)
    (hc' : d'.condition = .active)
    (hnext : ∀ piece, offered = some piece → out ≠ ⟨piece.length, .needMoreInput⟩) :
    d'.remaining (offered.map (·.drop out.consumed)) < d.remaining offered := by
  have hwork : (d.filled offered).work ≤ d.input.work + 9 * d.taken offered :=
    PendingInput.work_fill hs _
  have htaken := d.taken_le offered
  have hdrop : ((offered.map (·.drop (d.taken offered))).getD []).length + d.taken offered =
      (offered.getD []).length := by
    rcases offered with _ | piece
    · simpa using htaken
    · simpa using Nat.sub_add_cancel htaken
  suffices d'.input.work < (d.filled offered).work by
    have hconsumed : out.consumed = d.taken offered := by rcases h <;> rfl
    rw [remaining, remaining, hconsumed]
    omega
  rcases h with _ | ⟨hmore, hall⟩ | hc | ⟨-, -, hleaves, hpos, hframe, -⟩ |
    ⟨-, -, -, hleaves, hfull, -, hroom⟩
  · rcases offered with _ | piece
    · simp at hmore
    · exact absurd (congrArg (Output.mk · _) hall) (hnext piece rfl)
  · simp [hc] at hc'
  · have := hleaves.length_unread
    exact PendingInput.work_lt hleaves.length_le hframe (by omega)
  · have := hleaves.length_unread
    have hfull' : (d.filled offered).frameSize ≤ (d.filled offered).length :=
      Nat.le_of_eq hfull.symm
    rw [PendingInput.work, PendingInput.work, if_pos hfull', if_neg (Nat.not_le.2 hroom)]
    omega

end Decoder

/-! ## Any number of calls -/

/-- There is room for what a caller offers next. -/
theorem Decoder.Ready.fits [Memory] {d : Decoder} {pieces : List Bytes} (hd : d.Ready pieces) :
    d.Fits pieces.head? := by
  intro piece hpiece
  obtain ⟨rest, rfl⟩ := List.head?_eq_some_iff.1 hpiece
  have hsize := hd.held.1
  rw [List.flatten_cons, List.length_append] at hsize
  omega

/-- A decoder that has room for the pieces has room for what is left of them. -/
theorem Decoder.Ready.next [Memory] {d d' : Decoder} {piece : Bytes} {pieces : List Bytes}
    {out : Output}
    (hd : d.Ready (piece :: pieces)) (h : (d.decode (some piece)).value = (d', .ok out))
    (hc' : d'.condition = .active) : d'.Ready (leftover piece out.consumed pieces) := by
  have hmoves := moves_decode hd.active hd.sound hd.fits
  rw [List.head?_cons, h] at hmoves
  obtain ⟨hs', hlength, hle⟩ := hmoves.sound hd.sound hc'
  refine ⟨hc', hs', hd.held.mono ?_⟩
  rw [Option.getD_some] at hle
  rw [flatten_leftover, List.flatten_cons, List.length_append, List.length_append,
    List.length_drop]
  omega

theorem Decoder.Ready.drained [Memory] {d d' : Decoder} {out : Output} (hd : d.Ready [])
    (h : (d.decode none).value = (d', .ok out)) (hc' : d'.condition = .active) : d'.Ready [] := by
  have hmoves := moves_decode hd.active hd.sound hd.fits
  rw [List.head?_nil, h] at hmoves
  obtain ⟨hs', hlength, hle⟩ := hmoves.sound hd.sound hc'
  rw [Option.getD_none, List.length_nil] at hle
  exact ⟨hc', hs', hd.held.mono (by omega)⟩

namespace Ledger

variable {l : Ledger}

/-- No call makes the frame size smaller than the smallest one. -/
theorem minimal_le_run [Memory] (h : l.Balanced)
    (hminimal : PendingInput.minimalFrameSize ≤ l.decoder.input.frameSize) (calls : List Call) :
    PendingInput.minimalFrameSize ≤ (l.run calls).decoder.input.frameSize := by
  induction calls generalizing l with
  | nil => exact hminimal
  | cons call calls ih =>
    refine ih (h.after call) ?_
    by_cases hcall : call = .reset
    · subst hcall
      exact Nat.le_max_left _ _
    · exact Nat.le_trans hminimal (frameSize_le_after h hcall)

/-- **Between two calls the pending input is sound**, whatever a caller does. -/
theorem sound_run [Memory] {frameSize : Nat} (hsize : frameSize ≤ PendingInput.maxFrameSize)
    (failLevel : Level) (calls : List Call)
    (hc : ((start frameSize failLevel).run calls).decoder.condition = .active) :
    ((start frameSize failLevel).run calls).decoder.input.Sound := by
  have hbalanced := balanced_start hsize failLevel
  have haccounts := hbalanced.run calls
  have hresumes := haccounts.resumesAt hc
  refine ⟨hresumes.bitOffset_le, ?_, haccounts.length_le hc, ?_⟩
  · exact minimal_le_run hbalanced (Nat.le_max_left _ _) calls
  · rw [hresumes.bitOffset]
    exact Nat.mod_lt _ (by decide)

end Ledger

end LosslessAudio
