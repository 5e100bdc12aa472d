import LosslessAudio.Proofs.Operation

/-!
# What becomes of a decoder that fails

A stream can be refused in many places: bits run out, a parameter is out of range, storage cannot be
had, a finding is severe enough.  Whatever the cause, a caller gets to see a fault that has a class,
and a machine that is as empty as before its first input and answers nothing until it is reset.

* `Raises` — all failures of a computation have some property.  The reads of the format fail with
  nothing but bits that run out and parameters out of range, commands and the fields of a header
  with `Fault.Ordinary` faults, and passes with `Fault.Genuine` ones.
* `Calls.classified` — a call that fails has such a fault, and only says that the stream was cut
  short if the input is complete.
* `run?_refuses` — what the machine says and what is left of it, whatever a caller does.
-/

set_option autoImplicit false

namespace LosslessAudio

/-! ## How a computation may fail -/

/-- All failures of a computation have the property `P`. -/
def Raises {ε α : Type} (P : ε → Prop) (x : Except ε α) : Prop :=
  ∀ e, x = .error e → P e

/-- A fault of the stream, and not one that only a decoder makes of it or that no stream has. -/
def Fault.Genuine : Fault → Prop
  | .read fault => fault ≠ .tooWide
  | .storage (.truncated _) => False
  | _ => True

/-- Such a fault, and not a finding, which it takes a strict reader to fail with. -/
def Fault.Ordinary : Fault → Prop
  | .header (.unexpectedVersion _) => False
  | .missingQuit _ | .failedBefore => False
  | fault => fault.Genuine

/-- An ordinary fault is one of the stream. -/
theorem Fault.Ordinary.genuine {fault : Fault} (h : fault.Ordinary) : fault.Genuine := by
  cases fault with
  | header cause => exact trivial
  | missingQuit bitsLeft | failedBefore => exact h.elim
  | read cause | wave cause | command cause | storage cause => exact h

/-- What a caller sees of such a fault has a class. -/
theorem Fault.Genuine.kind_reported {fault : Fault} (h : fault.Genuine) (pending : Nat) :
    (fault.reported pending).kind.isSome = true := by
  rw [reported]
  split
  · rfl
  · rename_i hover
    cases fault with
    | read cause =>
      cases cause with
      | tooWide => exact absurd rfl h
      | riceParameter parameter position => rfl
      | pastEnd | skipPastEnd | seekPastEnd position => exact absurd rfl hover
    | header cause => cases cause <;> rfl
    | wave cause => cases cause <;> rfl
    | command cause => cases cause <;> rfl
    | storage cause => cases cause <;> rfl
    | missingQuit bitsLeft | failedBefore => rfl

/-- It is a stream that was cut short only where the bits ran out. -/
theorem Fault.Genuine.isOverread_of_reported {fault : Fault} (h : fault.Genuine) {pending n : Nat}
    (heq : fault.reported pending = .storage (.truncated n)) : fault.isOverread = true := by
  rw [reported] at heq
  split at heq
  · assumption
  · rw [heq] at h
    exact h.elim

namespace Raises

variable {ε α β : Type} {P : ε → Prop}

theorem ok (a : α) : Raises P (.ok a) :=
  nofun

theorem error {e : ε} (h : P e) : Raises (α := α) P (.error e) := by
  rintro _ ⟨⟩
  exact h

/-- Of two computations in a row either may fail. -/
theorem bind {x : Except ε α} {f : α → Except ε β} (hx : Raises P x)
    (hf : ∀ a, Raises P (f a)) : Raises P (x >>= f) := by
  intro e h
  rcases bind_eq_error.1 h with h | ⟨a, -, h⟩
  · exact hx e h
  · exact hf a e h

theorem map {x : Except ε α} (hx : Raises P x) (f : α → β) : Raises P (x.map f) := by
  cases x with
  | error e => exact error (hx e rfl)
  | ok a => exact ok (f a)

/-- What is true of the failures may be weakened. -/
theorem mono {Q : ε → Prop} {x : Except ε α} (hx : Raises P x) (h : ∀ {e}, P e → Q e) :
    Raises Q x :=
  fun e he => h (hx e he)

theorem ensure {condition : Prop} [Decidable condition] {cause : ε} (h : P cause) :
    Raises P (LosslessAudio.ensure condition cause) := by
  rw [LosslessAudio.ensure]
  split
  · exact ok ()
  · exact error h

/-- A read inside a command fails as the read does. -/
theorem lift {x : Except ReadFault α} (hx : Raises (· ≠ .tooWide) x) :
    Raises Fault.Ordinary (liftM x : Except Fault α) := by
  intro fault h
  obtain ⟨cause, hcause, rfl⟩ := lift_read_eq_error.1 h
  exact hx cause hcause

end Raises

/-! ## Bits and codes -/

namespace BitReader

variable (r : BitReader)

/-- A number is never read into a type that is too narrow for it. -/
theorem raises_bitsOfWidth {width n : Nat} (h : n ≤ width) :
    Raises (· ≠ .tooWide) (r.bitsOfWidth width n) := by
  rw [bitsOfWidth_of_le r h, bits]
  split
  · exact .ok _
  · exact .error (by decide)

theorem raises_skip (n : Nat) : Raises (· ≠ .tooWide) (r.skip n) := by
  rw [skip]
  split
  · exact .ok _
  · exact .error (by decide)

theorem raises_unary : Raises (· ≠ .tooWide) r.unary := by
  rw [unary]
  split
  · exact .error (by decide)
  · exact .ok _

/-- No remainder is wider than the type it is read into, since larger parameters are refused. -/
theorem raises_rice (k : Nat) : Raises (· ≠ .tooWide) (r.rice k) := by
  rw [rice]
  split
  · exact .error (by simp)
  · rename_i hk
    have hwidth : k ≤ 32 := Nat.le_trans (Nat.not_lt.1 hk) (by decide)
    exact r.raises_unary.bind fun x => (x.2.raises_bitsOfWidth hwidth).bind fun _ => .ok _

theorem raises_signedRice (k : Int32) : Raises (· ≠ .tooWide) (r.signedRice k) :=
  (r.raises_rice _).bind fun _ => .ok _

theorem raises_adaptive (version : UInt8) (hint : Nat) :
    Raises (· ≠ .tooWide) (r.adaptive version hint) := by
  rw [adaptive]
  split
  · exact r.raises_rice hint
  · exact (r.raises_rice _).bind fun x => x.2.raises_rice _

theorem raises_riceMany (k n : Nat) : Raises (· ≠ .tooWide) (r.riceMany k n) := by
  suffices ∀ r read, Raises (· ≠ .tooWide) (riceMany.go k r read n) from this r []
  induction n with
  | zero => exact fun _ _ => .ok _
  | succ n ih => exact fun r read => (r.raises_rice k).bind fun x => ih x.2 _

theorem raises_signedRiceMany (k : Int32) (n : Nat) :
    Raises (· ≠ .tooWide) (r.signedRiceMany k n) := by
  suffices ∀ r read, Raises (· ≠ .tooWide) (signedRiceMany.go k r read n) from this r []
  induction n with
  | zero => exact fun _ _ => .ok _
  | succ n ih => exact fun r read => (r.raises_signedRice k).bind fun x => ih x.2 _

end BitReader

/-- All that a reservation can fail with is the one fault for storage. -/
theorem Memory.raises_reserve [Memory] {P : Fault → Prop}
    (hP : ∀ purpose elements, P (.storage (.allocation purpose elements))) (purpose : Purpose)
    (elements : Nat) : Raises P (Memory.reserve purpose elements) := by
  rw [reserve]
  split
  · exact .ok _
  · exact .error (hP purpose.name elements)

/-! ## Commands -/

theorem Predictor.raises_read (c : Command) (kept : Nat) (r : BitReader) :
    Raises Fault.Ordinary (Predictor.read c kept r) := by
  rw [Predictor.read]
  split
  · exact .ok _
  · refine (r.raises_rice _).lift.bind fun x => (Raises.ensure trivial).bind fun _ => ?_
    exact (x.2.raises_signedRiceMany _ _).lift.bind fun _ => .ok _

theorem Predictor.raises_extend (p : Predictor) (base parameter : Int32) (r : BitReader)
    (past : List Int32) (n : Nat) :
    Raises (· ≠ .tooWide) (p.extend base parameter r past n) := by
  induction n generalizing r past with
  | zero => exact .ok _
  | succ n ih => exact (r.raises_signedRice parameter).bind fun x => ih x.2 _

/-- A code that no command has is refused, and is no missing input. -/
theorem Command.raises_read (r : BitReader) : Raises Fault.Ordinary (Command.read r) := by
  refine (r.raises_rice Command.codeParameter).lift.bind fun x => ?_
  dsimp only
  cases Command.ofCode? x.1.toNat with
  | none => exact .error trivial
  | some c => exact .ok _

namespace Stream

theorem raises_readBlock (s : Stream) (c : Command) (h : ChannelHistory) (r : BitReader) :
    Raises Fault.Ordinary (s.readBlock c h r) := by
  rw [readBlock]
  split
  · exact .ok _
  · have hparameter : Raises (· ≠ .tooWide) (readResidualParameter s.info.version r) :=
      (r.raises_rice _).bind fun _ => .ok _
    refine hparameter.lift.bind fun x => (Predictor.raises_read c _ x.2).bind fun y => ?_
    exact Raises.lift ((y.1.raises_extend _ _ y.2 _ _).bind fun _ => .ok _)

theorem raises_decodeChannel [Memory] (s : Stream) (c : Command) (r : BitReader) :
    Raises Fault.Ordinary (s.decodeChannel c r) := by
  refine (s.raises_readBlock c _ r).bind fun x => ?_
  refine Raises.bind ?_ fun _ => .ok _
  rw [blockEffect]
  split
  · exact Raises.map ((Memory.raises_reserve (fun _ _ => trivial) _ _).bind fun _ => .ok _) _
  · exact .ok _

theorem raises_execute [Memory] (s : Stream) (c : Command) (r : BitReader) :
    Raises Fault.Ordinary (s.execute c r).outcome := by
  by_cases hc : c.isAudio = true
  · rw [outcome_execute_of_isAudio hc]
    exact s.raises_decodeChannel c r
  cases c
  case verbatim =>
    rw [outcome_execute_verbatim]
    exact Raises.bind (Raises.lift ((r.raises_rice _).bind fun x =>
      (x.2.raises_riceMany _ _).bind fun _ => .ok _)) fun _ => .ok _
  case bitshift =>
    rw [outcome_execute_bitshift]
    exact Raises.bind ((r.raises_rice _).lift.bind fun _ =>
      (Raises.ensure trivial).bind fun _ => .ok _) fun _ => .ok _
  case blockSize =>
    rw [outcome_execute_blockSize]
    exact Raises.bind ((r.raises_adaptive _ _).lift.bind fun _ =>
      (Raises.ensure trivial).bind fun _ => (Raises.ensure trivial).bind fun _ => .ok _)
      fun _ => .ok _
  case quit => exact .ok _
  all_goals exact absurd rfl hc

/-- **What a command may fail with.** -/
theorem raises_carryOut [Memory] (s : Stream) (r : BitReader) : Raises Fault.Ordinary
    (s.carryOut r) :=
  (Command.raises_read r).bind fun x => (s.raises_execute x.1 x.2).bind fun _ => .ok _

end Stream

/-! ## The header -/

namespace WaveFormat

theorem raises_liftFault {α : Type} (x : Except WaveFault α) :
    Raises Fault.Ordinary (parse.liftFault x).outcome := by
  cases x with
  | error e => exact .error trivial
  | ok a => exact .ok a

theorem raises_parse (bytes : Bytes) : Raises Fault.Ordinary (parse bytes).outcome := by
  rw [parse, Checked.outcome_bind]
  refine (raises_liftFault _).bind fun chunks => ?_
  rw [Checked.outcome_bind]
  refine (Raises.ok (findChunk chunks).value).bind fun found => ?_
  rw [Checked.outcome_bind]
  refine (raises_liftFault found).bind fun x => ?_
  dsimp only
  rw [Checked.outcome_bind]
  refine (raises_liftFault (readBody x.1 x.2)).bind fun format => ?_
  split
  · exact .ok _
  · exact .ok _

end WaveFormat

namespace StreamInfo

theorem raises_skipBytes (r : BitReader) (n : Nat) : Raises (· ≠ .tooWide) (skipBytes r n) := by
  induction n generalizing r with
  | zero => exact .ok r
  | succ n ih => exact (r.raises_skip 8).bind fun r' => ih r'

theorem Sizes.raises_read (version : UInt8) (r : BitReader) :
    Raises Fault.Ordinary (Sizes.read version r) := by
  rw [Sizes.read]
  split
  · exact .ok _
  · refine (r.raises_adaptive _ _).lift.bind fun x => (Raises.ensure trivial).bind fun _ => ?_
    refine (x.2.raises_adaptive _ _).lift.bind fun y => ?_
    refine (y.2.raises_adaptive _ _).lift.bind fun z => (Raises.ensure trivial).bind fun _ => ?_
    refine (z.2.raises_adaptive _ _).lift.bind fun u => ?_
    exact (raises_skipBytes _ _).lift.bind fun _ => .ok _

theorem Preamble.raises_read (r : BitReader) : Raises Fault.Ordinary (Preamble.read r) := by
  refine (r.raises_bitsOfWidth (Nat.le_refl _)).lift.bind fun x =>
    (Raises.ensure trivial).bind fun _ => ?_
  refine (x.2.raises_bitsOfWidth (Nat.le_refl _)).lift.bind fun y => ?_
  refine (y.2.raises_adaptive _ _).lift.bind fun z => ?_
  refine (z.2.raises_adaptive _ _).lift.bind fun u => ?_
  refine (Raises.ensure trivial).bind fun _ => (Raises.ensure trivial).bind fun _ => ?_
  refine (Sizes.raises_read _ u.2).bind fun v => (Raises.ensure trivial).bind fun _ => ?_
  cases SampleType.ofCode? z.1.toNat with
  | none => exact .error trivial
  | some sampleType => exact .ok _

theorem raises_readWaveHeader (r : BitReader) : Raises Fault.Ordinary (readWaveHeader r) := by
  refine (r.raises_rice _).lift.bind fun x => (Raises.ensure trivial).bind fun _ => ?_
  refine (x.2.raises_rice _).lift.bind fun y => (Raises.ensure trivial).bind fun _ => ?_
  exact (y.2.raises_riceMany _ _).lift.bind fun _ => .ok _

theorem raises_conclude (failLevel : Level) (preamble : Preamble) (waveHeader : Bytes) :
    Raises Fault.Genuine (conclude failLevel preamble waveHeader) := by
  refine ((WaveFormat.raises_parse waveHeader).mono Fault.Ordinary.genuine).bind fun wave => ?_
  split
  · exact .error trivial
  · exact .ok _

/-- A strict reader also refuses a header for its version, which is a finding. -/
theorem raises_read (failLevel : Level) (r : BitReader) :
    Raises Fault.Genuine (StreamInfo.read failLevel r).outcome := by
  rw [outcome_read]
  refine ((Preamble.raises_read r).mono Fault.Ordinary.genuine).bind fun x => ?_
  refine ((raises_readWaveHeader x.2).mono Fault.Ordinary.genuine).bind fun y => ?_
  exact (raises_conclude failLevel x.1 y.1).bind fun _ => .ok _

end StreamInfo

theorem Stream.raises_start [Memory] {P : Fault → Prop}
    (hP : ∀ purpose elements, P (.storage (.allocation purpose elements))) (info : StreamInfo) :
    Raises P (Stream.start info) :=
  Raises.bind ((Memory.raises_reserve hP _ _).bind fun _ =>
    (Memory.raises_reserve hP _ _).bind fun _ => .ok _) fun _ => .ok _

/-! ## Passes -/

/-- What a pass may fail with: while there may be more input, bits that run out are no failure. -/
def Fault.EndsPass (flush : Bool) (fault : Fault) : Prop :=
  fault.Genuine ∧ (flush = false → fault.isOverread = false)

namespace Stream

theorem raises_endWithoutQuit (s : Stream) (failLevel : Level) (available : Nat) (flush : Bool)
    (r : BitReader) :
    Raises (Fault.EndsPass flush) (s.endWithoutQuit failLevel available r).value.outcome := by
  rw [value_endWithoutQuit]
  dsimp only
  split
  · exact .error ⟨trivial, fun _ => rfl⟩
  · exact .ok _

theorem raises_endInTail (s : Stream) (failLevel : Level) (flush : Bool) (r : BitReader) :
    Raises (Fault.EndsPass flush) (s.endInTail failLevel r).value.outcome := by
  rw [endInTail]
  cases Command.read r with
  | error fault => exact s.raises_endWithoutQuit failLevel _ _ r
  | ok x =>
    obtain ⟨c, r'⟩ := x
    cases c
    case quit => exact .ok _
    all_goals exact s.raises_endWithoutQuit failLevel _ _ r

theorem raises_runCommands [Memory] (s : Stream) (failLevel : Level) (flush : Bool)
    (r : BitReader) :
    Raises (Fault.EndsPass flush) (s.runCommands failLevel flush r).value.outcome := by
  cases hnext : s.next? r with
  | some x =>
    obtain ⟨⟨e, s'⟩, r'⟩ := x
    have := available_lt_of_next? hnext
    rw [value_runCommands_of_next? hnext]
    cases e with
    | silent => exact s'.raises_runCommands failLevel flush r'
    | pause | frame f | quit => exact .ok _
  | none =>
    by_cases hlen : r.available < Command.minimalBits
    · rw [value_runCommands_of_short hlen]
      split
      · exact s.raises_endInTail failLevel flush r
      · exact .ok _
    · have hlen := Nat.le_of_not_lt hlen
      obtain ⟨fault, hfault⟩ := exists_fault_of_stuck hnext hlen
      have hgenuine := (s.raises_carryOut r fault hfault).genuine
      rw [value_runCommands_of_error hlen hfault]
      split
      · exact .error ⟨hgenuine, fun _ => ‹_›⟩
      split
      · exact .ok _
      split
      · exact s.raises_endWithoutQuit failLevel _ _ _
      · exact .error ⟨hgenuine, fun hflush => absurd hflush ‹_›⟩
termination_by r.available

end Stream

theorem Decoder.raises_passOver [Memory] (d : Decoder) (flush : Bool) (r : BitReader) :
    Raises (Fault.EndsPass flush) (d.passOver flush r).2 := by
  cases hd : d.stream with
  | some s =>
    rw [passOver, hd]
    exact s.raises_runCommands d.failLevel flush r
  | none =>
    have hheads := heads_passOver hd flush r
    generalize d.passOver flush r = answer at hheads
    cases hheads with
    | waits | parsed => exact .ok _
    | refused hread hnow => exact .error ⟨StreamInfo.raises_read d.failLevel r _ hread, hnow⟩
    | tooLarge hread hstart =>
      exact .error (Stream.raises_start (fun _ _ => ⟨trivial, fun _ => rfl⟩) _ _ hstart)

/-! ## Calls -/

namespace Decoder

variable {d d' : Decoder} {offered : Option Bytes}

theorem statusOf_eq_needMoreInput {ending : Stream.PassEnd}
    (h : statusOf ending = .needMoreInput) : ending = .suspended := by
  cases ending with
  | suspended => rfl
  | paused | frame f | quit => cases h

theorem passOver_ne_suspended [Memory] (d : Decoder) (r r' : BitReader) :
    (d.passOver true r).2 ≠ .ok (.suspended, r') :=
  (d.passOver_followedBy true r (fun _ => (rfl : ([] : List Bool) = []))).not_suspended rfl

/-- A header that is refused leaves no stream. -/
theorem stream_of_passOver_error [Memory] (hd : d.stream = none) {flush : Bool} {r : BitReader}
    {stream : Option Stream} {fault : Fault} (h : d.passOver flush r = (stream, .error fault)) :
    stream = none := by
  have hheads := heads_passOver hd flush r
  rw [h] at hheads
  cases hheads with
  | refused | tooLarge => rfl

/-- **A call that fails** says why in a fault that has a class, and says that the stream was cut
short only if the input is complete. -/
theorem Calls.classified [Memory] {e : Fault} (h : d.Calls offered (d', .error e)) :
    e.kind.isSome = true ∧ ∀ n, e = .storage (.truncated n) → offered = none := by
  cases h with
  | refused | denied => exact ⟨rfl, nofun⟩
  | failed _ _ hruns =>
    cases hruns with
    | failed hover =>
      obtain ⟨hgenuine, hnow⟩ := raises_passOver _ _ _ _ (congrArg Prod.snd hover)
      refine ⟨hgenuine.kind_reported _, fun n heq => ?_⟩
      cases offered with
      | none => rfl
      | some bytes =>
        cases (hnow rfl).symm.trans (hgenuine.isOverread_of_reported heq)

/-- Nothing is pending in a decoder that has failed. -/
def Emptied (d : Decoder) : Prop :=
  d.condition = .failed → d.input.length = 0 ∧ d.input.bitOffset = 0

theorem Calls.emptied [Memory] {answer : Decoder × Except Fault Output}
    (hcalls : d.Calls offered answer) (h : d.Emptied) : answer.1.Emptied := by
  cases hcalls with
  | refused | ended => exact h
  | filling hc => exact fun hfailed => by cases hc.symm.trans hfailed
  | passed hc _ hruns =>
    cases hruns with
    | suspended => exact fun hfailed => by cases hc.symm.trans hfailed
    | completed =>
      intro hfailed
      dsimp only at hfailed
      split at hfailed
      · cases hfailed
      · cases hc.symm.trans hfailed
  | failed _ _ hruns =>
    cases hruns with
    | failed => exact fun _ => ⟨rfl, rfl⟩
  | denied => exact fun _ => ⟨rfl, rfl⟩

/-- A call that fails leaves a decoder that has failed. -/
theorem Calls.condition_of_error [Memory] {e : Fault} (h : d.Calls offered (d', .error e)) :
    d'.condition = .failed := by
  cases h with
  | refused hc => exact hc
  | failed _ _ hruns =>
    cases hruns with
    | failed => rfl
  | denied => rfl

/-- It leaves no stream behind if there was none before. -/
theorem Calls.stream_of_error [Memory] {e : Fault} (h : d.Calls offered (d', .error e))
    (hd : d.stream = none) : d'.stream = none := by
  cases h with
  | refused | denied => exact hd
  | failed _ _ hruns =>
    cases hruns with
    | failed hover => exact stream_of_passOver_error hd hover

/-- Where the input is complete, nobody waits for more of it. -/
theorem Calls.status_of_flush [Memory] {out : Output} (h : d.Calls none (d', .ok out)) :
    out.status ≠ .needMoreInput := by
  cases h with
  | ended => nofun
  | filling _ hready => cases hready
  | passed _ _ hruns =>
    cases hruns with
    | suspended hover => exact absurd (congrArg Prod.snd hover) (passOver_ne_suspended _ _ _)
    | completed _ _ _ hending => exact fun hstatus => hending (statusOf_eq_needMoreInput hstatus)

end Decoder

theorem Session.emptied_run [Memory] {t : Session} (ht : t.Intact) (h : t.decoder.Emptied)
    (calls : List Call) : (t.run calls).decoder.Emptied := by
  induction calls generalizing t with
  | nil => exact h
  | cons call calls ih =>
    refine ih (ht.after call) ?_
    cases call with
    | decode offered =>
      exact Decoder.Calls.emptied (Decoder.calls_decode (fun _ => ht.bitOffset_le) offered) h
    | setFailLevel failLevel => exact h
    | reset => exact fun hfailed => by cases hfailed

/-! ## The machine -/

namespace Machine

variable {m m' : Machine} {d : Decoder}

/-- A machine without a header has no channels. -/
theorem Represents.unparsed (h : m.Represents d) (hd : d.stream = none) :
    m.registers.headerParsed = false ∧ m.registers.channels = 0 ∧ m.registers.info = none ∧
      m.registers.rows = [] := by
  obtain ⟨held, hheld, hregisters⟩ := h.registers
  have hblank := hheld.blank
  rw [hd, Option.map_none, Option.map_eq_none_iff] at hblank
  rw [hregisters, hblank]
  exact ⟨rfl, rfl, rfl, rfl⟩

/-- Until it is reset, a machine that has failed stays as it is. -/
theorem run?_of_failed [Memory] (h : m.registers.failed = true) {turns : List Turn}
    (hturns : ∀ turn ∈ turns, turn.call ≠ .reset) :
    ∃ failLevel, m.run? turns = some (m.setFailLevel failLevel) := by
  induction turns generalizing m with
  | nil => exact ⟨m.registers.failLevel, rfl⟩
  | cons turn turns ih =>
    have hrest := fun turn' hmem => hturns turn' (List.mem_cons_of_mem turn hmem)
    obtain ⟨call, capacity⟩ := turn
    cases call with
    | decode offered =>
      obtain ⟨failLevel, hrun⟩ := ih h hrest
      have htake : m.take? ⟨.decode offered, capacity⟩ = some m := by
        show (m.decode? capacity offered).map _ = _
        rw [decode?_of_failed h]
        rfl
      exact ⟨failLevel, Access.bind_of_eq htake hrun⟩
    | setFailLevel level =>
      obtain ⟨failLevel, hrun⟩ := ih (m := m.setFailLevel level) h hrest
      exact ⟨failLevel, hrun⟩
    | reset => exact absurd rfl (hturns _ List.mem_cons_self)

/-- What a call that fails with `e` leaves behind. -/
structure Refuses [Memory] (m : Machine) (offered : Option Bytes) (e : Fault) (m' : Machine) :
    Prop where
  /-- The fault has a class. -/
  kind : e.kind.isSome = true
  /-- A stream is cut short only where the input is complete. -/
  truncated : ∀ n, e = .storage (.truncated n) → offered = none
  failed : m'.registers.failed = true
  length : m'.window.pending.length = 0
  bitOffset : m'.window.bitOffset = 0
  unparsed : m.registers.headerParsed = false → m'.registers.headerParsed = false ∧
    m'.registers.channels = 0 ∧ m'.registers.info = none ∧ m'.registers.rows = []
  /-- Until it is reset, the machine refuses every call, and nothing but the fail level changes. -/
  later : ∀ turns, (∀ turn ∈ turns, turn.call ≠ .reset) → ∃ failLevel,
    m'.run? turns = some (m'.setFailLevel failLevel) ∧ ∀ capacity offered,
      (m'.setFailLevel failLevel).decode? capacity offered =
        some (.error .failedBefore, m'.setFailLevel failLevel)

/-- **How the machine fails.**  Whatever a caller did before, a call that fails says so with a fault
that has a class, drops what is pending, leaves no half of a header behind and makes the machine
refuse every later call.  Where the input is complete no call asks for more of it. -/
theorem run?_refuses [Memory] (frameSize : Nat) (failLevel : Level) (turns : List Turn) :
    ∃ m, (start frameSize failLevel).run? turns = some m ∧
      m.Represents ((Session.start frameSize failLevel).run (turns.map Turn.call)).decoder ∧
      (∀ capacity offered e m', m.decode? capacity offered = some (.error e, m') →
        m.Refuses offered e m') ∧
      ∀ capacity out m', m.decode? capacity none = some (.ok out, m') →
        out.status ≠ .needMoreInput := by
  obtain ⟨m, hrun, hm⟩ := Represents.run (t := Session.start frameSize failLevel)
    (represents_start frameSize failLevel) turns
  have hemptied := Session.emptied_run (Session.intact_start frameSize failLevel) nofun
    (turns.map Turn.call)
  refine ⟨m, hrun, hm, fun capacity offered e m' hdecode => ?_, fun capacity out m' hdecode => ?_⟩
  · obtain ⟨d', hcalls, hm'⟩ := hm.calls hdecode
    obtain ⟨hkind, htruncated⟩ := hcalls.classified
    have hcondition := hcalls.condition_of_error
    have hfailed := (failed_iff hm').2 hcondition
    obtain ⟨hlength, hbit⟩ := hcalls.emptied hemptied hcondition
    refine ⟨hkind, htruncated, hfailed, ?_, ?_, fun hparsed => ?_, fun later hlater => ?_⟩
    · rw [hm'.pending]
      exact hlength
    · exact (congrArg PendingInput.bitOffset hm'.pending).trans hbit
    · rw [headerParsed_eq hm, Option.isSome_eq_false_iff, Option.isNone_iff_eq_none] at hparsed
      exact hm'.unparsed (hcalls.stream_of_error hparsed)
    · obtain ⟨level, hrun⟩ := run?_of_failed hfailed hlater
      exact ⟨level, hrun, decode?_of_failed (m := m'.setFailLevel level) hfailed⟩
  · obtain ⟨d', hcalls, -⟩ := hm.calls hdecode
    exact hcalls.status_of_flush

/-- A caller offers what is left of a stream that was cut short within its header. -/
def headerCut : List Turn :=
  [⟨.decode (some (stereoStream.take 20)), 0⟩]

/-- It was cut short within a block, behind a frame that is taken out. -/
def blockCut : List Turn :=
  [some (stereoStream.take 69), some ((stereoStream.take 69).drop 64), none, none].map
    fun offered => ⟨.decode offered, 0⟩

open scoped Memory in
/-- Both times the next call fails, with what is still pending. -/
theorem run?_refuses_cutShort :
    (∃ m m', (start 64 .warn).run? headerCut = some m ∧
      m.decode? 0 none = some (.error (.storage (.truncated 20)), m') ∧
      m.Refuses none (.storage (.truncated 20)) m') ∧
    ∃ m m', (start 64 .warn).run? blockCut = some m ∧
      m.decode? 0 none = some (.error (.storage (.truncated 2)), m') ∧
      m.Refuses none (.storage (.truncated 2)) m' := by
  have hcut {turns : List Turn} {e : Fault} (he : ((start 64 .warn).run? turns).bind (fun m =>
      (m.decode? 0 none).bind fun answer =>
        match answer.1 with
        | .error e => some e
        | .ok _ => none) = some e) : ∃ m m', (start 64 .warn).run? turns = some m ∧
        m.decode? 0 none = some (.error e, m') ∧ m.Refuses none e m' := by
    obtain ⟨m, hrun, -, hrefuses, -⟩ := run?_refuses 64 .warn turns
    rw [hrun, Option.bind_some] at he
    obtain ⟨⟨answer, m'⟩, hdecode, herror⟩ := Option.bind_eq_some_iff.1 he
    cases answer with
    | ok out => cases herror
    | error e' =>
      cases herror
      exact ⟨m, m', hrun, hdecode, hrefuses _ _ _ _ hdecode⟩
  exact ⟨hcut (by decide +kernel), hcut (by decide +kernel)⟩

end Machine

end LosslessAudio
