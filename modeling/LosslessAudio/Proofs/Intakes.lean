import LosslessAudio.Decoder.Intake
import LosslessAudio.Proofs.Loops
import LosslessAudio.Proofs.Session

/-!
# Taking in a source

`Decoder.takeIn` is three loops, one within the other: over the chunks of a source, over the calls
that a chunk takes, and over those that draining takes.  This file has one rule for all of them.
What holds between two calls, of the decoder, of the listener and of the bytes that are still to
come, holds up to the end if every call keeps it up (`Listener.Upholds`); where one chunk ends and
the next one begins plays no part.

* `Upholds.takeIn` — the rule.
* `Decoder.Tells` — what a call makes of what lies ahead of the decoder, wherever the input is cut.
* `takeIn_of_tracks` — what a source comes to for a listener that never stops: the listener has
  heard of exactly what lies in the source.
-/

set_option autoImplicit false

namespace LosslessAudio

/-! ## The rule -/

namespace Listener

variable {σ ε : Type}

/-- What is to hold when a call has been reported: `P`, of the bytes `rest` that are left, if there
is a next call, and else `Q`, of how it ended. -/
def Heard (P : Decoder → σ → Bytes → Prop) (Q : Decoder → σ → Except ε Unit → Prop) (d : Decoder)
    (rest : Bytes) : σ × Except ε Bool → Prop
  | (state, .error e) => Q d state (.error e)
  | (state, .ok false) => Q d state (.ok ())
  | (state, .ok true) => P d state rest

/-- Every call that the listener hears of keeps up `P`, or brings about `Q` at the end.  A call is
offered the bytes up to some place, and `rest` lies behind. -/
structure Upholds [Memory] (listener : Listener σ ε) (P : Decoder → σ → Bytes → Prop)
    (Q : Decoder → σ → Except ε Unit → Prop) : Prop where
  fails : ∀ {d d' : Decoder} {state : σ} {offered : Option Bytes} {rest : Bytes} {fault : Fault},
    P d state (offered.getD [] ++ rest) → d.Ready [offered.getD [] ++ rest] →
      (offered = none → rest = []) → (d.decode offered).value = (d', .error fault) →
        Q d' state (.error (listener.ofFault fault))
  hears : ∀ {d d' : Decoder} {state : σ} {offered : Option Bytes} {rest : Bytes} {out : Output},
    P d state (offered.getD [] ++ rest) → d.Ready [offered.getD [] ++ rest] →
      (offered = none → rest = []) → (d.decode offered).value = (d', .ok out) →
        Heard P Q d' ((offered.getD []).drop out.consumed ++ rest)
          (listener.onStatus state d' out.status)
  /-- A decoder whose stream has ended is called once more. -/
  ends : ∀ {d : Decoder} {state : σ} {rest : Bytes}, P d state rest → d.condition = .finished →
    Heard (fun d state _ => Q d state (.ok ())) Q d rest (listener.onStatus state d .finished)

end Listener

namespace Decoder

variable {σ ε : Type} {d d' : Decoder} {offered : Option Bytes} {rest : Bytes}

/-- The decoder can be called, with the bytes `rest` still to come. -/
def Going [Memory] (d : Decoder) (rest : Bytes) : Prop :=
  d.Ready [rest] ∨ d.condition = .finished

theorem Ready.room [Memory] (hd : d.Ready [offered.getD [] ++ rest]) :
    d.input.append (offered.getD []) = .ok (d.input.fill (offered.getD [])) := by
  refine PendingInput.append_of_canHold (hd.held.mono ?_)
  simp only [List.flatten_singleton, List.length_append]
  omega

theorem Ready.fits_prefix [Memory] (hd : d.Ready [offered.getD [] ++ rest]) :
    d.Fits offered := by
  rintro piece ⟨⟩
  have hsize := hd.held.1
  simp only [List.flatten_singleton, List.length_append, Option.getD_some] at hsize
  omega

theorem Going.poised [Memory] (hd : d.Going (offered.getD [] ++ rest)) : d.Poised offered := by
  rcases hd with hd | hc
  · exact ⟨fun _ => hd.sound, fun _ => hd.fits_prefix⟩
  · exact ⟨fun hactive => by simp [hc] at hactive, fun hactive => by simp [hc] at hactive⟩

/-- A call that does not fail is followed by others. -/
theorem Ready.going [Memory] (hd : d.Ready [offered.getD [] ++ rest]) {out : Output}
    (h : (d.decode offered).value = (d', .ok out)) :
    d'.Going ((offered.getD []).drop out.consumed ++ rest) := by
  have hmoves := moves_decode hd.active hd.sound hd.fits_prefix
  rw [h] at hmoves
  refine (hmoves.condition hd.active).imp (fun hc' => ?_) id
  obtain ⟨hs', hlength, hle⟩ := hmoves.sound hd.sound hc'
  refine ⟨hc', hs', hd.held.mono ?_⟩
  simp only [List.flatten_singleton, List.length_append, List.length_drop]
  omega

theorem getD_map_drop (offered : Option Bytes) (n : Nat) :
    (offered.map (·.drop n)).getD [] = (offered.getD []).drop n := by
  cases offered <;> simp

end Decoder

namespace Listener.Upholds

open Decoder

variable {σ ε : Type} {listener : Listener σ ε} {P : Decoder → σ → Bytes → Prop}
  {Q : Decoder → σ → Except ε Unit → Prop} {d : Decoder} {state : σ} {rest : Bytes}

/-- A loop over calls keeps up what every call keeps up. -/
theorem loops [Memory] (h : listener.Upholds P Q) {offered : Option Bytes} {before : List Made}
    {last : Made} {fed : Fed σ ε} (hloops : Loops listener d state offered before last fed)
    (hP : P d state (offered.getD [] ++ rest)) (hd : d.Going (offered.getD [] ++ rest))
    (hrest : offered = none → rest = []) :
    Heard P Q fed.decoder rest (fed.state, fed.outcome) ∧
      (fed.outcome = .ok true → fed.decoder.Going rest) := by
  induction hloops with
  | failed hcall =>
    rcases hd with hd | hc
    · exact ⟨h.fails hP hd hrest hcall, by simp⟩
    · simp [value_decode_of_finished hc] at hcall
  | brokenOff hcall hheard =>
    refine ⟨?_, by simp⟩
    rcases hd with hd | hc
    · have := h.hears hP hd hrest hcall
      rwa [hheard] at this
    · rw [value_decode_of_finished hc] at hcall
      obtain ⟨rfl, hout⟩ := Prod.mk.inj hcall
      have := h.ends hP hc
      rw [← Except.ok.inj hout] at hheard
      rwa [hheard] at this
  | @stopped d d' state state' offered out goOn hcall hheard hstop =>
    refine ⟨?_, by simp⟩
    rcases hd with hd | hc
    · have hmoves := moves_decode hd.active hd.sound hd.fits_prefix
      rw [hcall] at hmoves
      obtain rfl := hstop.resolve_right hmoves.status_ne_finished
      have := h.hears hP hd hrest hcall
      rwa [hheard] at this
    · rw [value_decode_of_finished hc] at hcall
      obtain ⟨rfl, hout⟩ := Prod.mk.inj hcall
      have := h.ends hP hc
      rw [← Except.ok.inj hout] at hheard
      rw [hheard] at this
      cases goOn <;> exact this
  | @taken d d' state state' chunk out hcall hheard hwaits hall =>
    rcases hd with hd | hc
    · have hgoing := hd.going hcall
      have := h.hears hP hd hrest hcall
      rw [Option.getD_some, hall, List.nil_append] at hgoing this
      rw [hheard] at this
      exact ⟨this, fun _ => hgoing⟩
    · rw [value_decode_of_finished hc] at hcall
      simp [← Except.ok.inj (Prod.mk.inj hcall).2] at hwaits
  | @again d d' state state' offered out before last fed hcall hheard hfinished hnext hloops ih =>
    have hd := hd.resolve_right fun hc => by
      rw [value_decode_of_finished hc] at hcall
      simp [← Except.ok.inj (Prod.mk.inj hcall).2] at hfinished
    have hkept := h.hears hP hd hrest hcall
    rw [hheard] at hkept
    refine ih ?_ ?_ (by simpa using hrest)
    · rw [getD_map_drop]
      exact hkept
    · rw [getD_map_drop]
      exact hd.going hcall

theorem feed [Memory] (h : listener.Upholds P Q) {chunk : Bytes} (hP : P d state (chunk ++ rest))
    (hd : d.Going (chunk ++ rest)) : let fed := (d.feed listener state chunk).value
      Heard P Q fed.decoder rest (fed.state, fed.outcome) ∧
        (fed.outcome = .ok true → fed.decoder.Going rest) := by
  have hpoised : d.Poised (some chunk) := Going.poised hd
  obtain ⟨before, last, hloops⟩ := exists_loops_feed hpoised listener state
  exact h.loops hloops hP hd nofun

theorem drain [Memory] (h : listener.Upholds P Q) (hP : P d state []) (hd : d.Going []) :
    let fed := (d.drain listener state).value
    Q fed.decoder fed.state (fed.outcome.map fun _ => ()) := by
  have hpoised : d.Poised none := Going.poised hd
  obtain ⟨before, last, hloops⟩ := exists_loops_drain hpoised listener state
  obtain ⟨hheard, -⟩ := h.loops hloops hP hd fun _ => rfl
  dsimp only
  generalize (d.drain listener state).value = fed at hloops hheard
  obtain ⟨decoder, state', e | goOn⟩ := fed
  · exact hheard
  · cases goOn with
    | false => exact hheard
    | true =>
      exact absurd rfl (hloops.outcome_ne_ok_true hpoised)

end Listener.Upholds

/-! ## The chunks of a source -/

/-- Replies that do not fail leave such replies. -/
theorem Reply.exists_first {replies : List Reply}
    (h : ∀ fault, Reply.fails fault ∉ replies) (regular : Nat × Nat) :
    ∃ reply replies', Reply.first regular replies = (.ok reply, replies') ∧
      ∀ fault, Reply.fails fault ∉ replies' := by
  induction replies with
  | nil => exact ⟨_, _, rfl, h⟩
  | cons reply replies ih =>
    have hrest : ∀ fault, Reply.fails fault ∉ replies :=
      fun fault hmem => h fault (List.mem_cons_of_mem _ hmem)
    cases reply with
    | gives fetched given => exact ⟨_, _, rfl, hrest⟩
    | interrupted => exact ih hrest
    | fails fault => exact absurd List.mem_cons_self (h fault)

namespace Reader

variable {r : Reader}

/-- No read will fail, however much each of them gives. -/
structure Reliable (r : Reader) : Prop where
  fault?_eq : r.fault? = none
  not_mem : ∀ fault, Reply.fails fault ∉ r.replies

/-- A read that does not fail gives some of what is left, if there is anything. -/
theorem rest_of_read {n : Nat} (hn : 0 < n) {r' : Reader} (h : r.read n = .ok ([], r')) :
    r.rest = [] := by
  rw [read] at h
  split at h
  · cases h
  split at h
  · cases h
  rename_i fetched given replies _
  obtain ⟨htaken, -⟩ := Prod.mk.inj (Except.ok.inj h)
  have hbuffer : ({ r with replies }.fetch fetched).buffer = [] :=
    (List.take_eq_nil_iff.1 htaken).resolve_left (by omega)
  rw [fetch, List.append_eq_nil_iff] at hbuffer
  obtain ⟨hbuffer, hfetched⟩ := hbuffer
  dsimp only at hbuffer hfetched
  rw [if_pos hbuffer] at hfetched
  rw [rest, hbuffer, List.nil_append]
  exact (List.take_eq_nil_iff.1 hfetched).resolve_left (by omega)

theorem Reliable.exists_read (h : r.Reliable) (n : Nat) :
    ∃ chunk r', r.read n = .ok (chunk, r') ∧ r'.Reliable := by
  obtain ⟨reply, replies, hfirst, hreplies⟩ := Reply.exists_first h.not_mem (r.regular n)
  rw [read, h.fault?_eq]
  dsimp only
  rw [hfirst]
  exact ⟨_, _, rfl, rfl, hreplies⟩

theorem Reliable.of_read (h : r.Reliable) {n : Nat} {chunk : Bytes} {r' : Reader}
    (hread : r.read n = .ok (chunk, r')) : r'.Reliable := by
  obtain ⟨chunk', r'', hread', h'⟩ := h.exists_read n
  obtain ⟨-, rfl⟩ := Prod.mk.inj (Except.ok.inj (hread.symm.trans hread'))
  exact h'

/-- What holds of a reader whose next read fails or gives nothing, and of any other one if it holds
behind its next chunk, holds of every reader. -/
@[elab_as_elim]
theorem read_induction {n : Nat} {motive : Reader → Prop}
    (broken : ∀ (r : Reader) (fault : FileFault), r.read n = .error fault → motive r)
    (exhausted : ∀ r r' : Reader, r.read n = .ok ([], r') → motive r)
    (chunk : ∀ (r r' : Reader) (chunk : Bytes), r.read n = .ok (chunk, r') → chunk ≠ [] →
      motive r' → motive r) (r : Reader) : motive r := by
  induction hlength : r.rest.length using Nat.strongRecOn generalizing r with
  | ind length ih =>
    rcases hread : r.read n with fault | ⟨bytes, r'⟩
    · exact broken r fault hread
    · by_cases hne : bytes = []
      · exact exhausted r r' (hne ▸ hread)
      · have hshorter : r'.rest.length < length := by
          have hpos := List.length_pos_iff.2 hne
          rw [← hlength, ← read_spec hread, List.length_append]
          omega
        exact chunk r r' bytes hread hne (ih _ hshorter r' rfl)

section

variable {σ ε : Type} {consumer : Consumer σ ε} {size : Nat} {r' : Reader}

theorem handOut_of_error {fault : FileFault} (hread : r.read size = .error fault) (state : σ) :
    r.handOut consumer size state = pure ⟨r, state, .error (consumer.ofFault fault)⟩ := by
  rw [handOut]
  split
  all_goals
    rename_i hread'
    rw [hread] at hread'
    cases hread'
  rfl

theorem handOut_of_nil (hread : r.read size = .ok ([], r')) (state : σ) :
    r.handOut consumer size state = pure ⟨r', state, .ok ()⟩ := by
  rw [handOut]
  split
  all_goals
    rename_i hread'
    rw [hread] at hread'
    cases hread'
  rfl

/-- A chunk is given to the consumer, who says whether there is another turn. -/
theorem handOut_of_chunk {chunk : Bytes} (hread : r.read size = .ok (chunk, r'))
    (hne : chunk ≠ []) (state : σ) :
    r.handOut consumer size state = consumer.onChunk state chunk >>= fun x =>
      match x with
      | (state, .error e) => pure ⟨r', state, .error e⟩
      | (state, .ok false) => pure ⟨r', state, .ok ()⟩
      | (state, .ok true) => r'.handOut consumer size state := by
  rw [handOut]
  split
  · rename_i hread'
    simp [hread] at hread'
  · rename_i hread'
    rw [hread] at hread'
    cases hread'
    exact absurd rfl hne
  · rename_i hread'
    rw [hread] at hread'
    cases hread'
    rfl

/-- Without a buffer for the chunks, nothing is read and nothing handed out. -/
theorem forEachChunk_of_breakdown [Memory] {breakdown : Breakdown}
    (hbuffer : Memory.allocate (max 1 size) = .error breakdown) (state : σ) :
    r.forEachChunk consumer size state = pure (.error breakdown) := by
  rw [forEachChunk, hbuffer]

theorem forEachChunk_of_buffer [Memory] (hbuffer : Memory.allocate (max 1 size) = .ok ())
    (state : σ) : r.forEachChunk consumer size state =
      Except.ok <$> r.handOut consumer (max 1 size) state := by
  rw [forEachChunk, hbuffer]
  exact bind_pure_comp _ _

end

end Reader

theorem Intake.value_feed [Memory] {σ : Type} (listener : Listener σ Failure) (intake : Intake σ)
    (chunk : Bytes) : (intake.feed listener chunk).value =
      let fed := (intake.decoder.feed listener intake.state chunk).value
      (⟨fed.decoder, fed.state, intake.bytes + chunk.length,
        match fed.outcome with
        | .ok goOn => !goOn
        | .error _ => intake.stopped⟩, fed.outcome) := rfl

/-- If there is a buffer for the chunks, they are handed to the decoder, which is drained then. -/
theorem Decoder.value_takeIn [Memory] {σ : Type} {listener : Listener σ Failure} {size : Nat}
    (hbuffer : Memory.allocate (max 1 size) = .ok ()) {r : Reader} {d : Decoder} {state : σ} :
    (d.takeIn listener size r state).value =
      let handed :=
        (r.handOut (Intake.consumer listener) (max 1 size) ⟨d, state, 0, false⟩).value
      .ok (match handed.outcome with
        | .error e => (handed.state, .error e)
        | .ok () => (handed.state.complete listener).value) := by
  rw [takeIn, Reader.forEachChunk_of_buffer hbuffer]
  simp only [Logged.value_bind, Logged.value_map]
  cases (r.handOut (Intake.consumer listener) (max 1 size) ⟨d, state, 0, false⟩).value.outcome <;>
    rfl

namespace Listener.Upholds

open Decoder

variable {σ : Type} {listener : Listener σ Failure} {P : Decoder → σ → Bytes → Prop}
  {Q : Decoder → σ → Except Failure Unit → Prop}

/-- What the loop over the chunks leaves: it has ended, or there is still to drain. -/
def Taken [Memory] (P : Decoder → σ → Bytes → Prop) (Q : Decoder → σ → Except Failure Unit → Prop)
    (intake : Intake σ) : Except Failure Unit → Prop
  | .error e => Q intake.decoder intake.state (.error e)
  | .ok () =>
    if intake.stopped then Q intake.decoder intake.state (.ok ())
    else P intake.decoder intake.state [] ∧ intake.decoder.Going []

theorem handOut [Memory] (h : listener.Upholds P Q) {size : Nat} (hsize : 0 < size) {r : Reader}
    (hr : r.Reliable) (intake : Intake σ) (hP : P intake.decoder intake.state r.rest)
    (hd : intake.decoder.Going r.rest) (hstopped : intake.stopped = false) :
    let handed := (r.handOut (Intake.consumer listener) size intake).value
    Taken P Q handed.state handed.outcome := by
  induction r using Reader.read_induction (n := size) generalizing intake with
  | broken r fault hread =>
    obtain ⟨chunk, r', hread', -⟩ := hr.exists_read size
    simp [hread] at hread'
  | exhausted r r' hread =>
    rw [Reader.rest_of_read hsize hread] at hP hd
    rw [Reader.handOut_of_nil hread]
    simpa [Taken, hstopped] using ⟨hP, hd⟩
  | chunk r r' chunk hread hne ih =>
    rw [← Reader.read_spec hread] at hP hd
    obtain ⟨hheard, hgoing⟩ := h.feed hP hd
    rw [Reader.handOut_of_chunk hread hne]
    simp only [Logged.value_bind, Intake.consumer, Intake.value_feed]
    generalize (intake.decoder.feed listener intake.state chunk).value = fed at *
    obtain ⟨decoder, state, e | goOn⟩ := fed
    · exact hheard
    · cases goOn with
      | false => exact hheard
      | true => exact ih (hr.of_read hread) _ hheard (hgoing rfl) rfl

/-- **What every call keeps up, a whole source keeps up.** -/
theorem takeIn [Memory] (h : listener.Upholds P Q) {size : Nat}
    (hbuffer : Memory.allocate (max 1 size) = .ok ()) {r : Reader} (hr : r.Reliable) (d : Decoder)
    (state : σ) (hP : P d state r.rest) (hd : d.Ready [r.rest]) :
    ∃ intake outcome, (d.takeIn listener size r state).value = .ok (intake, outcome) ∧
      Q intake.decoder intake.state outcome := by
  have hsize : 0 < max 1 size := Nat.le_max_left 1 size
  have htaken := h.handOut hsize hr ⟨d, state, 0, false⟩ hP (.inl hd) rfl
  rw [Decoder.value_takeIn hbuffer]
  generalize (r.handOut (Intake.consumer listener) (max 1 size) ⟨d, state, 0, false⟩).value =
    handed at *
  obtain ⟨reader, intake, e | _⟩ := handed
  · exact ⟨_, _, rfl, htaken⟩
  · refine ⟨_, _, rfl, ?_⟩
    dsimp only [Taken] at htaken
    rw [Intake.complete]
    split
    · rwa [if_pos ‹_›] at htaken
    · rw [if_neg ‹_›] at htaken
      exact h.drain htaken.1 htaken.2

end Listener.Upholds

/-- Where a source cannot be read, nothing is taken in. -/
theorem value_takeIn_of_fault [Memory] {σ : Type} (listener : Listener σ Failure) {size : Nat}
    (hbuffer : Memory.allocate (max 1 size) = .ok ()) {r : Reader} {fault : FileFault}
    (hfault : r.fault? = some fault) (d : Decoder) (state : σ) :
    (d.takeIn listener size r state).value = .ok (⟨d, state, 0, false⟩, .error (.file fault)) := by
  have hread : r.read (max 1 size) = .error fault := by
    rw [Reader.read, hfault]
  rw [Decoder.value_takeIn hbuffer, Reader.handOut_of_error hread]
  rfl

/-- Without a buffer for the chunks, nothing is read. -/
theorem value_takeIn_of_breakdown [Memory] {σ : Type} {listener : Listener σ Failure} {size : Nat}
    {breakdown : Breakdown} (hbuffer : Memory.allocate (max 1 size) = .error breakdown)
    {r : Reader} {d : Decoder} {state : σ} :
    (d.takeIn listener size r state).value = .error breakdown := by
  rw [Decoder.takeIn, Reader.forEachChunk_of_breakdown hbuffer]
  rfl

/-! ## What lies in a source -/

theorem Stream.Steps.info_eq {s s' : Stream} {blocks : List Block} {frames : List Frame}
    (h : s.Steps blocks frames s') : s'.info = s.info := by
  induction h with
  | refl => rfl
  | step _ hstep ih => exact (Routine.info_of_step hstep).trans ih

namespace Decoder

variable {d d' : Decoder} {offered : Option Bytes} {rest : Bytes} {out : Output}

/-- The parameters of a stream do not change any more. -/
theorem Calls.info?_eq [Memory] {answer : Decoder × Except Fault Output}
    (h : d.Calls offered answer) :
    d.info? = none ∨ answer.1.info? = d.info? := by
  have hpass {input : PendingInput} {flush : Bool} {r : BitReader} {stream : Option Stream}
      {outcome : Except Fault (Stream.PassEnd × BitReader)}
      (hover : passOver { d with input } flush r = (stream, outcome)) :
      d.info? = none ∨ stream.map Stream.info = d.info? := by
    rcases hd : d.stream with _ | s
    · exact .inl (by simp [info?, hd])
    · refine .inr ?_
      rw [passOver, hd] at hover
      rw [← (Prod.mk.inj hover).1, info?, hd]
      exact congrArg some (s.steps_runCommands d.failLevel flush r).info_eq
  rcases h with _ | _ | _ | ⟨-, -, hruns⟩ | ⟨-, -, hruns⟩
  case passed | failed =>
    rcases hruns with hover | hover | hover
    all_goals exact hpass hover
  all_goals exact .inr rfl

theorem Calls.info?_of_error [Memory] {fault : Fault} (h : d.Calls offered (d', .error fault)) :
    d'.info? = d.info? := by
  rcases h.info?_eq with hd | hd
  · have hstream : d.stream = none := by simpa [info?] using hd
    simp [info?, h.stream_of_error hstream, hstream]
  · exact hd

/-- A call that finds the header does not give a frame back. -/
theorem Calls.frames_of_unparsed [Memory] (h : d.Calls offered (d', .ok out))
    (hd : d.info? = none) :
    out.status.frames = [] := by
  have hstream : d.stream = none := by simpa [info?] using hd
  rcases h with _ | _ | _ | ⟨-, -, hruns⟩ | _
  case passed =>
    rcases hruns with _ | hover | hover
    case suspended => rfl
    case completed =>
      rcases heads_filled hstream hover <;> rfl
  all_goals rfl

/-- What a call makes of `t`, which lay ahead of the decoder. -/
inductive Tells [Memory] (offered : Option Bytes) (rest : Bytes) (t : Transcript) :
    Decoder × Except Fault Output → Prop
  | failed {d' : Decoder} {fault : Fault} (h : t = Playback.transcript ⟨[], .error fault, d'⟩) :
      Tells offered rest t (d', .error fault)
  | ended {d' : Decoder} {taken : Nat} (hc' : d'.condition = .finished)
      (h : t = Playback.transcript ⟨[], .ok (), d'⟩) :
      Tells offered rest t (d', .ok ⟨taken, .noFrame⟩)
  | goesOn {d' : Decoder} {out : Output} (hc' : d'.condition = .active)
      (h : t = (Transcript.ahead d'.failLevel d'.stream (d'.input.unread ++
        Bits.ofBytes ((offered.getD []).drop out.consumed ++ rest))).after out.status.frames) :
      Tells offered rest t (d', .ok out)

/-- What a call takes is still to come. -/
theorem unread_filled (hs : d.input.Sound) (offered : Option Bytes) (rest : Bytes) :
    d.input.unread ++ Bits.ofBytes (offered.getD [] ++ rest) = (d.filled offered).unread ++
      Bits.ofBytes ((offered.getD []).drop (d.taken offered) ++ rest) := by
  rw [Bits.ofBytes_append, Bits.ofBytes_append, ← List.append_assoc, ← List.append_assoc,
    ← PendingInput.unread_fill hs]
  rfl

/-- **A call brings about the front of what lies ahead**, wherever the input is cut. -/
theorem tells_decode [Memory] (hd : d.Ready [offered.getD [] ++ rest])
    (hrest : offered = none → rest = []) :
    Tells offered rest (Transcript.ahead d.failLevel d.stream
      (d.input.unread ++ Bits.ofBytes (offered.getD [] ++ rest))) (d.decode offered).value := by
  have hs' := d.sound_filled hd.sound offered
  rw [value_decode hd.active offered hd.room, unread_filled hd.sound]
  dsimp only
  split
  · have hflush (hflush : offered.isNone = true) :
        Bits.ofBytes ((offered.getD []).drop (d.taken offered) ++ rest) = [] := by
      obtain rfl := Option.isNone_iff_eq_none.1 hflush
      simp [hrest rfl]
    have hmax : (d.filled offered).length < PendingInput.maxFrameSize := by
      refine (hd.held.mono ?_).1
      have htaken := d.taken_le offered
      rw [length_filled]
      simp only [List.flatten_singleton, List.length_append]
      omega
    have hanswers := runPass_answers (d := { d with input := d.filled offered }) hd.active hs' hmax
      ‹_› _ hflush
    change Answers _ _ _ _ (runPass { d with input := d.filled offered } offered.isNone).value
      at hanswers
    change Tells _ _ _ ((runPass { d with input := d.filled offered } offered.isNone).value.1,
      (runPass { d with input := d.filled offered } offered.isNone).value.2.map _)
    generalize (runPass { d with input := d.filled offered } offered.isNone).value = answer
      at hanswers ⊢
    rcases hanswers with h | ⟨hc', h⟩ | ⟨hc', -, -, -, -, h⟩
    · exact .failed h
    · exact .ended hc' h
    · exact .goesOn hc' h
  · exact .goesOn hd.active rfl

end Decoder

/-- The listener never stops, and what it remembers keeps up with the parameters of the stream and
the frames so far. -/
structure Listener.Tracks {σ ε : Type} (listener : Listener σ ε)
    (Inv : σ → Option StreamInfo → List Frame → Prop) : Prop where
  hears : ∀ {state : σ} {info : Option StreamInfo} {frames : List Frame} {d : Decoder}
    {status : Status}, Inv state info frames → (info = none ∨ d.info? = info) →
      (info = none → status.frames = []) →
        ∃ state', listener.onStatus state d status = (state', .ok true) ∧
          Inv state' d.info? (frames ++ status.frames)

/-- `frames` lie behind the decoder and the rest of `t` ahead of it, with the bytes `rest` still to
come. -/
def Decoder.LiesIn [Memory] (d : Decoder) (t : Transcript) (frames : List Frame) (rest : Bytes) :
    Prop :=
  (d.condition = .active →
    t = (Transcript.ahead d.failLevel d.stream
      (d.input.unread ++ Bits.ofBytes rest)).after frames) ∧
  (d.condition = .finished → t = Playback.transcript ⟨frames, .ok (), d⟩)

theorem Transcript.after_after (t : Transcript) (frames frames' : List Frame) :
    (t.after frames').after frames = t.after (frames ++ frames') := by
  simp [after, List.append_assoc]

theorem Playback.transcript_after_nil (frames : List Frame) (outcome : Except Fault Unit)
    (d : Decoder) :
    (transcript ⟨[], outcome, d⟩).after frames = transcript ⟨frames, outcome, d⟩ := by
  simp [transcript, Transcript.after, Transcript.unplaced]

/-- A listener that tracks the stream hears of all that lies in it. -/
theorem Listener.Tracks.upholds [Memory] {σ ε : Type} {listener : Listener σ ε}
    {Inv : σ → Option StreamInfo → List Frame → Prop} (h : listener.Tracks Inv) (t : Transcript) :
    listener.Upholds
      (fun d state rest => ∃ frames, Inv state d.info? frames ∧ d.LiesIn t frames rest)
      (fun d state outcome => ∃ frames o, Inv state d.info? frames ∧
        t = Playback.transcript ⟨frames, o, d⟩ ∧ outcome = o.mapError listener.ofFault) where
  fails := by
    rintro d d' state offered rest fault ⟨frames, hInv, hlies⟩ hd hrest hcall
    have hcalls := Decoder.calls_decode (fun _ => hd.sound.bitOffset_le) offered
    have htells := Decoder.tells_decode hd hrest
    rw [hcall] at hcalls htells
    rw [← hcalls.info?_of_error] at hInv
    rcases htells with ⟨hfront⟩
    refine ⟨frames, .error fault, hInv, ?_, rfl⟩
    rw [hlies.1 hd.active, hfront, Playback.transcript_after_nil]
  hears := by
    rintro d d' state offered rest out ⟨frames, hInv, hlies⟩ hd hrest hcall
    have hcalls := Decoder.calls_decode (fun _ => hd.sound.bitOffset_le) offered
    have htells := Decoder.tells_decode hd hrest
    rw [hcall] at hcalls htells
    obtain ⟨state', hheard, hInv'⟩ := h.hears hInv hcalls.info?_eq hcalls.frames_of_unparsed
    rw [hheard]
    refine ⟨_, hInv', ?_⟩
    rcases htells with _ | ⟨hc', hfront⟩ | ⟨hc', hfront⟩
    · refine ⟨fun hactive => by simp [hc'] at hactive, fun _ => ?_⟩
      rw [hlies.1 hd.active, hfront, Playback.transcript_after_nil]
      simp [Status.frames]
    · refine ⟨fun _ => ?_, fun hfinished => by simp [hc'] at hfinished⟩
      rw [hlies.1 hd.active, hfront, Transcript.after_after]
  ends := by
    rintro d state rest ⟨frames, hInv, hlies⟩ hc
    have hnone : d.info? = none → Status.finished.frames = [] := fun _ => rfl
    obtain ⟨state', hheard, hInv'⟩ := h.hears hInv (.inr rfl) hnone
    rw [hheard]
    refine ⟨frames, .ok (), ?_, hlies.2 hc, rfl⟩
    simpa [Status.frames] using hInv'

/-- **A listener that never stops hears of all that lies in a source**, whatever the size of the
chunks; and what lies in it is what `Transcript.ahead` says. -/
theorem takeIn_of_tracks [Memory] {σ : Type} {listener : Listener σ Failure}
    {Inv : σ → Option StreamInfo → List Frame → Prop} (h : listener.Tracks Inv) {size : Nat}
    (hbuffer : Memory.allocate (max 1 size) = .ok ()) {r : Reader} (hr : r.Reliable)
    (failLevel : Level) (state : σ) (hInv : Inv state none [])
    (hheld : PendingInput.CanHold r.rest.length) :
    ∃ (t : Playback) (intake : Intake σ),
      ((Decoder.ofLevel failLevel).takeIn listener size r state).value =
        .ok (intake, t.outcome.mapError listener.ofFault) ∧
      t.transcript = Transcript.ahead failLevel none (Bits.ofBytes r.rest) ∧
      t.decoder = intake.decoder ∧ Inv intake.state t.decoder.info? t.frames := by
  have hready : (Decoder.ofLevel failLevel).Ready [r.rest] :=
    Decoder.ready_start _ failLevel (by simpa using hheld)
  obtain ⟨intake, outcome, htaken, frames, outcome', hInv', ht, rfl⟩ :=
    (h.upholds (Transcript.ahead failLevel none (Bits.ofBytes r.rest))).takeIn hbuffer hr
      (.ofLevel failLevel) state
      ⟨[], hInv, fun _ => rfl, by rintro ⟨⟩⟩ hready
  exact ⟨⟨frames, outcome', _⟩, intake, htaken, ht.symm, rfl, hInv'⟩

end LosslessAudio
