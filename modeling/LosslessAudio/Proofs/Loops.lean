import LosslessAudio.Decoder.Feed
import LosslessAudio.Proofs.Progress

/-!
# Feeding and draining come to an end

`Decoder.feed` and `Decoder.drain` call the decoder over and over and bound the number of calls
beforehand.  `Loops` says what they would do without such a bound: a call, the listener, and either
the end or the next call.  This file shows that the bounds are never reached, so that both are the
loops that they look like, and what can be said of every call that they make.

* `Loops` — a loop over the calls of a decoder, with all the calls that it makes.
* `Made.GetsOn` — what a call has to get done if it is not the last one: it uses up some bits, ends
  the stream, or doubles the frame size of a buffer that is full.
* `exists_loops` — every loop ends, after no more calls than there is left to do.
* `feed_and_drain_end` — so do `feed` and `drain`, whatever was done with the decoder before.
-/

set_option autoImplicit false

namespace LosslessAudio

/-! ## Loops -/

/-- A call that a loop makes. -/
structure Made where
  decoder : Decoder
  offered : Option Bytes

namespace Made

/-- The decoder behind the call, and what the call answers. -/
def answer [Memory] (call : Made) : Decoder × Except Fault Output :=
  (call.decoder.decode call.offered).value

/-- The bytes that the call took. -/
def taken [Memory] (call : Made) : Bytes :=
  (call.offered.getD []).take (consumedBytes call.answer.2)

/-- The call has to be followed by another one, and got something done. -/
inductive GetsOn [Memory] (call : Made) : Prop
  /-- It used up some of what was pending, or of what it was offered. -/
  | advances {n : Nat} (hpos : 0 < n)
      (h : (call.decoder.filled call.offered).Leaves n call.answer.1.input)
  /-- It found the end of the stream. -/
  | ends (h : call.decoder.condition = .active) (h' : call.answer.1.condition = .finished)
  /-- The buffer was full, and its frame size was doubled, or as good as doubled where that is no
  number of the machine, which no buffer can be as long as. -/
  | grows (hfull : (call.decoder.filled call.offered).length = call.decoder.input.frameSize)
      (hlt : call.decoder.input.frameSize < call.answer.1.input.frameSize)
      (hdouble : 2 * call.decoder.input.frameSize ≤ PendingInput.maxFrameSize →
        call.answer.1.input.frameSize = 2 * call.decoder.input.frameSize)

end Made

namespace Decoder

variable {σ ε : Type}

/-- What happens when `d` is called over and over, with what is left of `offered` where that is a
chunk and without input where it is `none`: the calls `before` the last one, the `last` one, and
what it all leads to.  The listener is told of every status; it may stop the loop, or break it off.
-/
inductive Loops [Memory] (listener : Listener σ ε) :
    Decoder → σ → Option Bytes → List Made → Made → Fed σ ε → Prop
  /-- A call that fails is the last one. -/
  | failed {d d' : Decoder} {state : σ} {offered : Option Bytes} {fault : Fault}
      (h : (d.decode offered).value = (d', .error fault)) :
      Loops listener d state offered [] ⟨d, offered⟩ ⟨d', state, .error (listener.ofFault fault)⟩
  /-- So is one whose status the listener does not bear. -/
  | brokenOff {d d' : Decoder} {state state' : σ} {offered : Option Bytes} {out : Output} {e : ε}
      (h : (d.decode offered).value = (d', .ok out))
      (hheard : listener.onStatus state d' out.status = (state', .error e)) :
      Loops listener d state offered [] ⟨d, offered⟩ ⟨d', state', .error e⟩
  /-- The listener does not want to hear more, or the stream has ended. -/
  | stopped {d d' : Decoder} {state state' : σ} {offered : Option Bytes} {out : Output}
      {goOn : Bool} (h : (d.decode offered).value = (d', .ok out))
      (hheard : listener.onStatus state d' out.status = (state', .ok goOn))
      (hstop : goOn = false ∨ out.status = .finished) :
      Loops listener d state offered [] ⟨d, offered⟩ ⟨d', state', .ok false⟩
  /-- All of the chunk is taken, and the decoder asks for more. -/
  | taken {d d' : Decoder} {state state' : σ} {chunk : Bytes} {out : Output}
      (h : (d.decode (some chunk)).value = (d', .ok out))
      (hheard : listener.onStatus state d' out.status = (state', .ok true))
      (hwaits : out.status = .needMoreInput) (hall : chunk.drop out.consumed = []) :
      Loops listener d state (some chunk) [] ⟨d, some chunk⟩ ⟨d', state', .ok true⟩
  | again {d d' : Decoder} {state state' : σ} {offered : Option Bytes} {out : Output}
      {before : List Made} {last : Made} {fed : Fed σ ε}
      (h : (d.decode offered).value = (d', .ok out))
      (hheard : listener.onStatus state d' out.status = (state', .ok true))
      (hfinished : out.status ≠ .finished)
      (hnext : out.status = .needMoreInput → offered.map (·.drop out.consumed) ≠ some [])
      (hrest : Loops listener d' state' (offered.map (·.drop out.consumed)) before last fed) :
      Loops listener d state offered (⟨d, offered⟩ :: before) last fed

variable {listener : Listener σ ε} {d : Decoder} {state : σ} {offered : Option Bytes}
  {before : List Made} {last : Made} {fed : Fed σ ε}

/-! ## The bounds are not reached -/

theorem value_feedWithin_succ [Memory] (listener : Listener σ ε) (calls : Nat) (d : Decoder)
    (state : σ) (chunk : Bytes) : (feedWithin listener (calls + 1) d state chunk).value =
      match (d.decode (some chunk)).value with
      | (d, .error fault) => ⟨d, state, .error (listener.ofFault fault)⟩
      | (d, .ok out) =>
        match listener.onStatus state d out.status with
        | (state, .error e) => ⟨d, state, .error e⟩
        | (state, .ok goOn) =>
          if !goOn || out.status = .finished then ⟨d, state, .ok false⟩
          else if out.status = .needMoreInput ∧ chunk.drop out.consumed = [] then
            ⟨d, state, .ok true⟩
          else (feedWithin listener calls d state (chunk.drop out.consumed)).value := by
  rw [feedWithin, Logged.value_bind]
  rcases (d.decode (some chunk)).value with ⟨d', fault | out⟩
  · rfl
  dsimp only
  rcases listener.onStatus state d' out.status with ⟨state', e | goOn⟩
  · rfl
  dsimp only
  split
  · rfl
  split <;> rfl

theorem value_drainWithin_succ [Memory] (listener : Listener σ ε) (calls : Nat) (d : Decoder)
    (state : σ) :
    (drainWithin listener (calls + 1) d state).value =
      match (d.decode none).value with
      | (d, .error fault) => ⟨d, state, .error (listener.ofFault fault)⟩
      | (d, .ok out) =>
        match listener.onStatus state d out.status with
        | (state, .error e) => ⟨d, state, .error e⟩
        | (state, .ok goOn) =>
          if !goOn || out.status = .finished then ⟨d, state, .ok false⟩
          else (drainWithin listener calls d state).value := by
  rw [drainWithin, Logged.value_bind]
  rcases (d.decode none).value with ⟨d', fault | out⟩
  · rfl
  dsimp only
  rcases listener.onStatus state d' out.status with ⟨state', e | goOn⟩
  · rfl
  dsimp only
  split <;> rfl

/-- With enough calls, feeding is the loop over the chunk. -/
theorem Loops.value_feedWithin [Memory] {chunk : Bytes}
    (h : Loops listener d state (some chunk) before last fed) {calls : Nat}
    (hcalls : before.length < calls) : (feedWithin listener calls d state chunk).value = fed := by
  obtain ⟨calls, rfl⟩ := Nat.exists_eq_succ_of_ne_zero (Nat.ne_zero_of_lt hcalls)
  rw [value_feedWithin_succ]
  generalize hoffered : some chunk = offered at h
  induction h generalizing chunk calls with
  | failed h =>
    subst hoffered
    rw [h]
  | brokenOff h hheard =>
    subst hoffered
    simp [h, hheard]
  | stopped h hheard hstop =>
    subst hoffered
    simp only [h, hheard]
    rcases hstop with rfl | hstop
    · simp
    · simp [hstop]
  | taken h hheard hwaits hall =>
    obtain rfl := Option.some.inj hoffered
    simp only [h, hheard]
    simp [hwaits, hall]
  | again h hheard hfinished hnext hrest ih =>
    subst hoffered
    obtain ⟨calls, rfl⟩ := Nat.exists_eq_succ_of_ne_zero
      (Nat.ne_zero_of_lt (Nat.lt_of_succ_lt_succ hcalls))
    have hnext' : ¬(_ ∧ chunk.drop _ = []) := fun hwaits => hnext hwaits.1 (congrArg some hwaits.2)
    simp only [h, hheard, hfinished, hnext', value_feedWithin_succ]
    exact ih calls (Nat.lt_of_succ_lt_succ hcalls) rfl

/-- With enough calls, draining is the loop without input. -/
theorem Loops.value_drainWithin [Memory] (h : Loops listener d state none before last fed)
    {calls : Nat}
    (hcalls : before.length < calls) : (drainWithin listener calls d state).value = fed := by
  obtain ⟨calls, rfl⟩ := Nat.exists_eq_succ_of_ne_zero (Nat.ne_zero_of_lt hcalls)
  rw [value_drainWithin_succ]
  generalize hoffered : (none : Option Bytes) = offered at h
  induction h generalizing calls with
  | failed h =>
    subst hoffered
    rw [h]
  | brokenOff h hheard =>
    subst hoffered
    simp [h, hheard]
  | stopped h hheard hstop =>
    subst hoffered
    simp only [h, hheard]
    rcases hstop with rfl | hstop
    · simp
    · simp [hstop]
  | taken => simp at hoffered
  | again h hheard hfinished hnext hrest ih =>
    subst hoffered
    obtain ⟨calls, rfl⟩ := Nat.exists_eq_succ_of_ne_zero
      (Nat.ne_zero_of_lt (Nat.lt_of_succ_lt_succ hcalls))
    simp only [h, hheard, hfinished, value_drainWithin_succ]
    exact ih calls (Nat.lt_of_succ_lt_succ hcalls) rfl

/-! ## Every loop ends -/

/-- What a loop needs of the decoder that it calls. -/
structure Poised (d : Decoder) (offered : Option Bytes) : Prop where
  sound : d.condition = .active → d.input.Sound
  fits : d.condition = .active → d.Fits offered

/-- A call that is followed by another one moves the decoder, and leaves it poised. -/
theorem Poised.next [Memory] (hd : d.Poised offered) {d' : Decoder} {out : Output}
    (h : (d.decode offered).value = (d', .ok out)) (hfinished : out.status ≠ .finished) :
    d.condition = .active ∧ d.Moves offered (d', .ok out) ∧
      d'.Poised (offered.map (·.drop out.consumed)) := by
  have hc : d.condition = .active := by
    rcases hc : d.condition with _ | _ | _
    · rfl
    · rw [value_decode_of_finished hc] at h
      obtain ⟨-, hout⟩ := Prod.mk.inj h
      exact absurd (Except.ok.inj hout ▸ rfl) hfinished
    · simp [value_decode_of_failed hc] at h
  have hs := hd.sound hc
  have hmoves := moves_decode hc hs (hd.fits hc)
  rw [h] at hmoves
  refine ⟨hc, hmoves, fun hc' => (hmoves.sound hs hc').1, fun hc' => ?_⟩
  obtain ⟨-, hlength, hle⟩ := hmoves.sound hs hc'
  intro rest hrest
  obtain ⟨piece, rfl, rfl⟩ := Option.map_eq_some_iff.1 hrest
  have := hd.fits hc piece rfl
  rw [Option.getD_some] at hle
  rw [List.length_drop]
  omega

/-- A call of a decoder whose stream has ended is the last one, and so is one that fails. -/
theorem loops_of_not_active [Memory] (hc : d.condition ≠ .active) (listener : Listener σ ε)
    (state : σ)
    (offered : Option Bytes) : ∃ last fed, Loops listener d state offered [] last fed := by
  rcases hc' : d.condition with _ | _ | _
  · exact absurd hc' hc
  · have h := value_decode_of_finished hc' offered
    rcases hheard : listener.onStatus state d .finished with ⟨state', e | goOn⟩
    · exact ⟨_, _, .brokenOff h hheard⟩
    · exact ⟨_, _, .stopped h hheard (.inr rfl)⟩
  · exact ⟨_, _, .failed (value_decode_of_failed hc' offered)⟩

/-- **Every loop ends.**  It makes no more calls than there is left to do, but for the last two: one
may find the end of the stream, and the next one says so. -/
theorem exists_loops [Memory] (hd : d.Poised offered) (listener : Listener σ ε) (state : σ) :
    ∃ before last fed, Loops listener d state offered before last fed ∧
      before.length ≤ d.remaining offered + 1 := by
  induction hn : d.remaining offered using Nat.strongRecOn generalizing d state offered with
  | ind n ih =>
    subst hn
    rcases h : (d.decode offered).value with ⟨d', fault | out⟩
    · exact ⟨[], _, _, .failed h, Nat.zero_le _⟩
    rcases hheard : listener.onStatus state d' out.status with ⟨state', e | goOn⟩
    · exact ⟨[], _, _, .brokenOff h hheard, Nat.zero_le _⟩
    by_cases hstop : goOn = false ∨ out.status = .finished
    · exact ⟨[], _, _, .stopped h hheard hstop, Nat.zero_le _⟩
    obtain ⟨hgoOn, hfinished⟩ := not_or.1 hstop
    rw [Bool.not_eq_false] at hgoOn
    subst hgoOn
    by_cases hlast : out.status = .needMoreInput ∧ offered.map (·.drop out.consumed) = some []
    · obtain ⟨hwaits, hall⟩ := hlast
      obtain ⟨chunk, rfl, hempty⟩ := Option.map_eq_some_iff.1 hall
      exact ⟨[], _, _, .taken h hheard hwaits hempty, Nat.zero_le _⟩
    have hnext (hwaits : out.status = .needMoreInput) :
        offered.map (·.drop out.consumed) ≠ some [] := fun hall => hlast ⟨hwaits, hall⟩
    obtain ⟨hc, hmoves, hd'⟩ := hd.next h hfinished
    by_cases hc' : d'.condition = .active
    · have hlt := hmoves.remaining_lt (hd.sound hc) hc' (by
        rintro piece rfl rfl
        exact hnext rfl (by simp))
      obtain ⟨before, last, fed, hrest, hlength⟩ := ih _ hlt hd' state' rfl
      refine ⟨_, last, fed, .again h hheard hfinished hnext hrest, ?_⟩
      rw [List.length_cons]
      omega
    · obtain ⟨last, fed, hrest⟩ := loops_of_not_active hc' listener state' _
      exact ⟨_, last, fed, .again h hheard hfinished hnext hrest, Nat.succ_le_succ (Nat.zero_le _)⟩

/-! ## What can be said of its calls -/

theorem Moves.getsOn [Memory] {d' : Decoder} {out : Output} (hmoves : d.Moves offered (d', .ok out))
    (hs : d.input.Sound) (hc : d.condition = .active) (hfits : d.Fits offered)
    (h : (d.decode offered).value = (d', .ok out))
    (hnext : out.status = .needMoreInput → offered.map (·.drop out.consumed) ≠ some []) :
    Made.GetsOn ⟨d, offered⟩ := by
  have hanswer : Made.answer ⟨d, offered⟩ = (d', .ok out) := h
  rcases hmoves with _ | ⟨hmore, hall⟩ | hc' | ⟨-, -, hleaves, hpos, -, -⟩ |
    ⟨hmore, -, -, hleaves, hfull, hframe, -⟩
  · obtain ⟨piece, rfl⟩ := Option.isSome_iff_exists.1 hmore
    exact absurd (congrArg some (List.drop_of_length_le (Nat.le_of_eq hall.symm))) (hnext rfl)
  · exact .ends hc (hanswer ▸ hc')
  · exact .advances hpos (hanswer ▸ hleaves)
  · obtain ⟨piece, rfl⟩ := Option.isSome_iff_exists.1 hmore
    have hmax := hfits piece rfl
    have htaken := d.taken_le (some piece)
    have hminimal := hs.minimal_le
    rw [length_filled, Option.getD_some] at *
    rw [PendingInput.minimalFrameSize] at hminimal
    have hgrown : d'.input.frameSize =
      min PendingInput.maxFrameSize (2 * d.input.frameSize) := hframe
    refine .grows (by rw [length_filled]; exact hfull) ?_ ?_
    · rw [hanswer]
      dsimp only
      omega
    · rw [hanswer]
      dsimp only
      omega

/-- **Every call that is not the last one gets on.** -/
theorem Loops.getsOn [Memory] (h : Loops listener d state offered before last fed)
    (hd : d.Poised offered) :
    ∀ call ∈ before, call.GetsOn := by
  induction h with
  | again h hheard hfinished hnext hrest ih =>
    obtain ⟨hc, hmoves, hd'⟩ := hd.next h hfinished
    exact List.forall_mem_cons.2
      ⟨hmoves.getsOn (hd.sound hc) hc (hd.fits hc) h hnext, ih hd'⟩
  | _ => simp

/-- A loop that would go on has offered all of a chunk, and was asked for more. -/
theorem Loops.flatMap_taken [Memory] (h : Loops listener d state offered before last fed)
    (houtcome : fed.outcome = .ok true) : (∃ n, last.answer.2 = .ok ⟨n, .needMoreInput⟩) ∧
      (before ++ [last]).flatMap Made.taken = offered.getD [] := by
  induction h with
  | @again d d' _ _ offered out before last _ h hheard hfinished hnext hrest ih =>
    obtain ⟨hwaits, hrest⟩ := ih houtcome
    refine ⟨hwaits, ?_⟩
    rw [List.cons_append, List.flatMap_cons, hrest, Made.taken, Made.answer, h]
    cases offered <;> simp [consumedBytes]
  | @taken d d' _ _ chunk out h hheard hwaits hall =>
    have hanswer : Made.answer ⟨d, some chunk⟩ = (d', .ok out) := h
    refine ⟨⟨out.consumed, ?_⟩, ?_⟩
    · rw [hanswer, ← hwaits]
    · rw [List.nil_append, List.flatMap_singleton, Made.taken, hanswer, consumedBytes,
        Option.getD_some, List.take_of_length_le (List.drop_eq_nil_iff.1 hall)]
  | stopped | brokenOff | failed => simp at houtcome

/-- Nobody who is told that the input is complete asks for more of it. -/
theorem not_waiting [Memory] (hd : d.Poised none) (n : Nat) :
    (Made.answer ⟨d, none⟩).2 ≠ .ok ⟨n, .needMoreInput⟩ := by
  intro hwaits
  have hcalls := calls_decode (fun hc => (hd.sound hc).bitOffset_le) none
  rw [Made.answer] at hwaits
  rcases hanswer : (d.decode none).value with ⟨d', answer⟩
  rw [hanswer] at hwaits hcalls
  subst hwaits
  exact hcalls.status_of_flush rfl

theorem Loops.not_waiting [Memory] (h : Loops listener d state none before last fed)
    (hd : d.Poised none) :
    ∀ call ∈ before ++ [last], ∀ n, call.answer.2 ≠ .ok ⟨n, .needMoreInput⟩ := by
  generalize hoffered : (none : Option Bytes) = offered at h
  induction h with
  | again h hheard hfinished hnext hrest ih =>
    subst hoffered
    exact List.forall_mem_cons.2 ⟨Decoder.not_waiting hd, ih (hd.next h hfinished).2.2 rfl⟩
  | taken => simp at hoffered
  | failed | brokenOff | stopped =>
    subst hoffered
    simpa using Decoder.not_waiting hd

/-- So there is no more to do when a loop without input has ended. -/
theorem Loops.outcome_ne_ok_true [Memory] (h : Loops listener d state none before last fed)
    (hd : d.Poised none) : fed.outcome ≠ .ok true := by
  intro houtcome
  obtain ⟨⟨n, hwaits⟩, -⟩ := h.flatMap_taken houtcome
  exact h.not_waiting hd last (by simp) n hwaits

/-- A loop without input that nobody stops goes on until the stream has ended, or to a fault. -/
theorem Loops.ends [Memory] (h : Loops listener d state none before last fed)
    (hgoOn : ∀ state d status, (listener.onStatus state d status).2 = .ok true) :
    (∃ n, last.answer.2 = .ok ⟨n, .finished⟩) ∨ ∃ fault, last.answer.2 = .error fault := by
  generalize hoffered : (none : Option Bytes) = offered at h
  induction h with
  | again h hheard hfinished hnext hrest ih =>
    subst hoffered
    exact ih rfl
  | taken => simp at hoffered
  | failed h => exact .inr ⟨_, congrArg Prod.snd h⟩
  | @brokenOff _ d' state state' _ out e h hheard =>
    have := hgoOn state d' out.status
    simp [hheard] at this
  | @stopped _ d' state state' _ out goOn h hheard hstop =>
    have := hgoOn state d' out.status
    rw [hheard] at this
    obtain rfl := Except.ok.inj this
    have hstatus : out.status = .finished := by simpa using hstop
    exact .inl ⟨out.consumed, (congrArg Prod.snd h).trans (hstatus ▸ rfl)⟩

/-! ## Feeding and draining -/

theorem work_le (d : Decoder) : d.input.work ≤ 8 * d.input.length + 1 := by
  rw [PendingInput.work, PendingInput.length_unread]
  split <;> omega

/-- Feeding is a loop that ends. -/
theorem exists_loops_feed [Memory] {chunk : Bytes} (hd : d.Poised (some chunk))
    (listener : Listener σ ε) (state : σ) : ∃ before last,
      Loops listener d state (some chunk) before last (d.feed listener state chunk).value := by
  obtain ⟨before, last, fed, h, hlength⟩ := exists_loops hd listener state
  have hcalls : before.length < d.feedBound chunk := by
    have := d.work_le
    rw [remaining, Option.getD_some] at hlength
    rw [feedBound]
    omega
  exact ⟨before, last, h.value_feedWithin hcalls ▸ h⟩

/-- So is draining. -/
theorem exists_loops_drain [Memory] (hd : d.Poised none) (listener : Listener σ ε) (state : σ) :
    ∃ before last, Loops listener d state none before last (d.drain listener state).value := by
  obtain ⟨before, last, fed, h, hlength⟩ := exists_loops hd listener state
  have hcalls : before.length < d.drainBound := by
    have := d.work_le
    rw [remaining, Option.getD_none, List.length_nil] at hlength
    rw [drainBound]
    omega
  exact ⟨before, last, h.value_drainWithin hcalls ▸ h⟩

end Decoder

/-- **Feeding and draining come to an end**, whatever a caller did with the decoder before, and
whatever the listener says.

* Feeding is the loop over the chunk, which makes finitely many calls; only if all of the chunk is
  taken and the decoder asks for more does it say to go on.
* Draining is the loop without input, which makes finitely many calls and is never asked for more
  input; if nobody stops it, the last call says that the stream has ended, or fails.
* Every call that is not the last one uses up some bits, ends the stream, or doubles the frame size
  of a buffer that is full.

The bound on a chunk is that of the address space, which no byte string fills. -/
theorem feed_and_drain_end [Memory] {σ ε : Type} (frameSize : Nat)
    (hsize : frameSize ≤ PendingInput.maxFrameSize) (failLevel : Level) (calls : List Call)
    (listener : Listener σ ε) (state : σ) :
    let d := ((Session.start frameSize failLevel).run calls).decoder
    (∀ chunk : Bytes, d.input.length + chunk.length < PendingInput.maxFrameSize →
      ∃ before last,
        Decoder.Loops listener d state (some chunk) before last
          (d.feed listener state chunk).value ∧
        (∀ call ∈ before, call.GetsOn) ∧
        ((d.feed listener state chunk).value.outcome = .ok true →
          (∃ n, last.answer.2 = .ok ⟨n, .needMoreInput⟩) ∧
            (before ++ [last]).flatMap Made.taken = chunk)) ∧
    ∃ before last,
      Decoder.Loops listener d state none before last (d.drain listener state).value ∧
      (∀ call ∈ before, call.GetsOn) ∧
      (∀ call ∈ before ++ [last], ∀ n, call.answer.2 ≠ .ok ⟨n, .needMoreInput⟩) ∧
      ((∀ state d status, (listener.onStatus state d status).2 = .ok true) →
        (∃ n, last.answer.2 = .ok ⟨n, .finished⟩) ∨ ∃ fault, last.answer.2 = .error fault) := by
  intro d
  have hdecoder := Ledger.decoder_run (l := Ledger.start frameSize failLevel)
    (t := Session.start frameSize failLevel) rfl calls
  have hsound (hc : d.condition = .active) : d.input.Sound := by
    have := Ledger.sound_run hsize failLevel calls
    rw [hdecoder] at this
    exact this hc
  refine ⟨fun chunk hchunk => ?_, ?_⟩
  · have hd : d.Poised (some chunk) := ⟨hsound, fun _ => by rintro _ ⟨⟩; exact hchunk⟩
    obtain ⟨before, last, h⟩ := Decoder.exists_loops_feed hd listener state
    exact ⟨before, last, h, h.getsOn hd, h.flatMap_taken⟩
  · have hd : d.Poised none := ⟨hsound, fun _ => nofun⟩
    obtain ⟨before, last, h⟩ := Decoder.exists_loops_drain hd listener state
    exact ⟨before, last, h, h.getsOn hd, h.not_waiting hd, h.ends⟩

/-- Who listens to everything. -/
def patient : Listener Nat Fault :=
  ⟨fun heard _ _ => (heard + 1, .ok true), id⟩

open scoped Memory in
/-- A block that never ends is fed to a decoder that has read the header. -/
theorem feed_and_drain_end_endlessBlock :
    64 ≤ PendingInput.maxFrameSize ∧ ∃ before last,
      Decoder.Loops patient
        ((Session.start 64 .warn).run [.decode (some (Machine.endlessBlock.take 64))]).decoder 0
        (some (Machine.endlessBlock.drop 64)) before last
        (((Session.start 64 .warn).run [.decode (some (Machine.endlessBlock.take 64))]).decoder.feed
          patient 0 (Machine.endlessBlock.drop 64)).value ∧
      (∀ call ∈ before, call.GetsOn) := by
  refine ⟨by decide, ?_⟩
  obtain ⟨hfeed, -⟩ := feed_and_drain_end 64 (by decide) .warn
    [.decode (some (Machine.endlessBlock.take 64))] patient 0
  obtain ⟨before, last, h, hgetsOn, -⟩ := hfeed (Machine.endlessBlock.drop 64) (by decide +kernel)
  exact ⟨before, last, h, hgetsOn⟩

end LosslessAudio
