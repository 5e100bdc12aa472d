import LosslessAudio.Proofs.Progress

/-!
# Findings

A finding is a fault that only a strict reader fails with: a lax one leaves it in the log, as the
only kind of record that is a warning, and goes on.  Everything else that a decoder does is the same
at every fail level.

* `warnings` — what a log holds that is at least a warning.  Nothing but a finding puts anything
  there: `Stream.warnings_execute`, `WaveFormat.warnings_parse` and `Decoder.warnings_conclude`.
* `Weighed` — how a step depends on the fail level: not at all, or in what becomes of one finding.
  `Stream.weighed_runCommands` says so of a pass, by induction on its commands, and
  `Decoder.weighed_decode` of a call.
-/

set_option autoImplicit false

namespace LosslessAudio

/-! ## Findings and warnings -/

/-- A fault that a lax reader goes on from. -/
inductive Finding where
  /-- The version of a stream is above the known ones. -/
  | unexpectedVersion (version : UInt8)
  /-- A stream ends without a quit command. -/
  | missingQuit (bitsLeft : Nat)
  deriving DecidableEq, Repr

namespace Finding

/-- The fault that a strict reader fails with. -/
def fault : Finding → Fault
  | .unexpectedVersion version => .header (.unexpectedVersion version)
  | .missingQuit bitsLeft => .missingQuit bitsLeft

/-- The part of the program that reports it. -/
def origin : Finding → Origin
  | .unexpectedVersion _ => .header
  | .missingQuit _ => .decoder

/-- The record that a lax reader leaves. -/
def record (f : Finding) : Record :=
  ⟨.warn, f.origin, f.fault.message⟩

theorem not_ordinary (f : Finding) : ¬f.fault.Ordinary := by
  cases f <;> exact id

/-- The finding that a fault is, if it is one. -/
def ofFault? : Fault → Option Finding
  | .header (.unexpectedVersion version) => some (.unexpectedVersion version)
  | .missingQuit bitsLeft => some (.missingQuit bitsLeft)
  | _ => none

@[simp] theorem ofFault?_fault (f : Finding) : ofFault? f.fault = some f := by
  cases f <;> rfl

theorem fault_of_ofFault? {fault : Fault} {f : Finding} (h : ofFault? fault = some f) :
    fault = f.fault := by
  unfold ofFault? at h
  split at h <;> cases h <;> rfl

end Finding

/-- What a decoder makes of an ordinary fault is no finding. -/
theorem Fault.Ordinary.reported_ne {fault : Fault} (h : fault.Ordinary) (pending : Nat)
    (f : Finding) : fault.reported pending ≠ f.fault := by
  rw [reported]
  split
  · intro heq
    cases f <;> cases heq
  · rintro rfl
    exact f.not_ordinary h

/-- The records of a log that are at least warnings. -/
def warnings (log : List Record) : List Record :=
  log.filter (·.level ≤ .warn)

@[simp] theorem warnings_nil : warnings [] = [] := rfl

@[simp] theorem warnings_append (log log' : List Record) :
    warnings (log ++ log') = warnings log ++ warnings log' :=
  List.filter_append ..

@[simp] theorem warnings_record_cons (f : Finding) (log : List Record) :
    warnings (f.record :: log) = f.record :: warnings log := rfl

/-- Among records that are no warnings, a finding is the only one. -/
theorem warnings_found {before after : List Record} (hbefore : warnings before = [])
    (hafter : warnings after = []) (f : Finding) :
    warnings (before ++ f.record :: after) = [f.record] := by
  rw [warnings_append, warnings_record_cons, hbefore, hafter, List.nil_append]

/-- Behind notes that are no warnings, a step warns of what it warns of. -/
theorem Logged.warnings_behind {α : Type} {log : List Record} (hlog : warnings log = [])
    (x : Logged α) :
    warnings ((⟨(), log⟩ : Logged Unit) >>= fun _ => x).log = warnings x.log := by
  rw [log_bind, warnings_append, hlog, List.nil_append]

namespace Checked

variable {α β : Type}

theorem run_bind_of_ok {x : Checked α} {a : α} {log : List Record} (h : x.run = ⟨.ok a, log⟩)
    (f : α → Checked β) : (x >>= f).run = ⟨(f a).run.value, log ++ (f a).run.log⟩ := by
  rw [ExceptT.run_bind, h]
  rfl

theorem run_bind_of_eq {x : Except Fault α} {a : α} (h : x = .ok a) (f : α → Checked β) :
    ((liftM x : Checked α) >>= f).run = (f a).run := by
  rw [h]
  rfl

theorem run_bind_of_error {x : Checked α} {fault : Fault} {log : List Record}
    (h : x.run = ⟨.error fault, log⟩) (f : α → Checked β) :
    (x >>= f).run = ⟨.error fault, log⟩ := by
  rw [ExceptT.run_bind, h]
  exact congrArg (Logged.mk _) (List.append_nil log)

/-- A sequence of steps that leave no warnings leaves none. -/
theorem warnings_bind {x : Checked α} {f : α → Checked β} (hx : warnings x.log = [])
    (hf : ∀ a, warnings (f a).log = []) : warnings (x >>= f).log = [] := by
  rw [log_bind, warnings_append, hx, List.nil_append]
  split
  · exact hf _
  · rfl

theorem warnings_liftM (x : Except Fault α) : warnings (liftM x : Checked α).log = [] := rfl

end Checked

namespace WaveFormat

theorem warnings_liftFault {α : Type} (x : Except WaveFault α) :
    warnings (parse.liftFault x).log = [] := by
  cases x <;> rfl

/-- Chunks that are passed over are no reason to warn. -/
theorem warnings_findChunk (bytes : Bytes) : warnings (findChunk bytes).log = [] := by
  induction bytes using findChunk.induct with
  | case1 bytes fault htake =>
    rw [findChunk_of_error htake]
    rfl
  | case2 bytes head rest htake name hname =>
    rw [findChunk_of_ok htake, if_pos hname]
    rfl
  | case3 bytes head rest htake name length hname _ ih =>
    rw [findChunk_of_ok htake, if_neg hname]
    exact ih

theorem warnings_parse (bytes : Bytes) : warnings (parse bytes).log = [] := by
  refine Checked.warnings_bind (warnings_liftFault _) fun chunks => ?_
  refine Checked.warnings_bind ?_ fun found => ?_
  · exact (congrArg warnings (Logged.log_map Except.ok _)).trans (warnings_findChunk chunks)
  refine Checked.warnings_bind (warnings_liftFault found) fun x => ?_
  refine Checked.warnings_bind (warnings_liftFault _) fun format => ?_
  split <;> rfl

end WaveFormat

namespace Stream

/-- Commands leave notes, whether they complete or not, but never warn. -/
theorem warnings_execute [Memory] (s : Stream) (c : Command) (r : BitReader) :
    warnings (s.execute c r).log = [] := by
  refine Checked.warnings_bind rfl fun _ => ?_
  cases c
  case verbatim | blockSize =>
    exact Checked.warnings_bind rfl fun _ => Checked.warnings_bind rfl fun _ => rfl
  case bitshift =>
    refine Checked.warnings_bind (Checked.warnings_liftM _) fun x => ?_
    dsimp only
    split
    · exact Checked.warnings_bind rfl fun _ => rfl
    · rfl
  case quit => exact Checked.warnings_bind rfl fun _ => rfl
  all_goals exact Checked.warnings_liftM _

theorem warnings_remarks [Memory] (s : Stream) (r : BitReader) : warnings (s.remarks r) = [] := by
  rw [remarks]
  split
  · exact s.warnings_execute _ _
  · rfl

end Stream

/-! ## How a step depends on the fail level -/

/-- A step for which the fail level makes no difference, or only the one between a strict reader,
whom the step fails with a finding, and a lax one, for whom it leaves a warning.  `place` puts the
fail level into a value, `clean` holds of a value without a finding, and `found` says what a finding
comes to for a strict reader and for a lax one. -/
inductive Weighed {α : Type} (place : Level → α → α) (clean : α → Prop)
    (found : Finding → α → α → Prop) (x : Level → Logged α) : Prop
  | plain (a : α) (log : List Record) (hx : ∀ level, x level = ⟨place level a, log⟩)
      (hlog : warnings log = []) (ha : clean a)
  | finds (f : Finding) (a b : α) (before after : List Record)
      (hstrict : ∀ level, Level.warn ≤ level → x level = ⟨place level a, before⟩)
      (hlax : ∀ level, ¬Level.warn ≤ level →
        x level = ⟨place level b, before ++ f.record :: after⟩)
      (hbefore : warnings before = []) (hafter : warnings after = []) (hfound : found f a b)

namespace Weighed

variable {α β : Type} {place : Level → α → α} {place' : Level → β → β} {clean : α → Prop}
  {clean' : β → Prop} {found : Finding → α → α → Prop} {found' : Finding → β → β → Prop}
  {x : Level → Logged α}

/-- What follows a step, and does not look at the fail level itself, does not weigh on it. -/
theorem bind (hx : Weighed place clean found x) {k : Level → α → Logged β} (k' : α → Logged β)
    (hk : ∀ level a, k level (place level a) = ⟨place' level (k' a).value, (k' a).log⟩)
    (hlog : ∀ a, warnings (k' a).log = []) (hclean : ∀ a, clean a → clean' (k' a).value)
    (hfound : ∀ f a b, found f a b →
      found' f (k' a).value (k' b).value ∧ (k' a).log = []) :
    Weighed place' clean' found' fun level => x level >>= k level := by
  cases hx with
  | plain a log hx hquiet ha =>
    refine .plain (k' a).value (log ++ (k' a).log) (fun level => ?_) ?_ (hclean a ha)
    · rw [hx]
      show Logged.mk (k level (place level a)).value (log ++ (k level (place level a)).log) = _
      rw [hk]
    · rw [warnings_append, hquiet, hlog, List.append_nil]
  | finds f a b before after hstrict hlax hbefore hafter hf =>
    obtain ⟨hf', hnone⟩ := hfound f a b hf
    refine .finds f (k' a).value (k' b).value before (after ++ (k' b).log)
      (fun level hlevel => ?_) (fun level hlevel => ?_) hbefore ?_ hf'
    · rw [hstrict level hlevel]
      show Logged.mk (k level (place level a)).value (before ++ (k level (place level a)).log) = _
      rw [hk, hnone, List.append_nil]
    · rw [hlax level hlevel]
      show Logged.mk (k level (place level b)).value
        ((before ++ f.record :: after) ++ (k level (place level b)).log) = _
      rw [hk, List.append_assoc, List.cons_append]
    · rw [warnings_append, hafter, hlog, List.append_nil]

/-- Neither do notes in front of it. -/
theorem behind (hx : Weighed place clean found x) {log : List Record} (hlog : warnings log = []) :
    Weighed place clean found fun level => (⟨(), log⟩ : Logged Unit) >>= fun _ => x level := by
  cases hx with
  | plain a log' hx hquiet ha =>
    refine .plain a (log ++ log') (fun level => ?_) ?_ ha
    · rw [hx]
      rfl
    · rw [warnings_append, hlog, hquiet, List.append_nil]
  | finds f a b before after hstrict hlax hbefore hafter hf =>
    refine .finds f a b (log ++ before) after (fun level hlevel => ?_) (fun level hlevel => ?_) ?_
      hafter hf
    · rw [hstrict level hlevel]
      rfl
    · rw [hlax level hlevel, List.append_assoc]
      rfl
    · rw [warnings_append, hlog, hbefore, List.append_nil]

theorem mono {found' : Finding → α → α → Prop} (hx : Weighed place clean found x)
    (h : ∀ {f a b}, found f a b → found' f a b) : Weighed place clean found' x := by
  cases hx with
  | plain a log hx hlog ha => exact .plain a log hx hlog ha
  | finds f a b before after hstrict hlax hbefore hafter hf =>
    exact .finds f a b before after hstrict hlax hbefore hafter (h hf)

theorem of_eq {y : Level → Logged α} (hx : Weighed place clean found x)
    (h : ∀ level, y level = x level) : Weighed place clean found y :=
  funext h ▸ hx

end Weighed

/-! ## The header -/

namespace StreamInfo

/-- What an unknown version comes to: a strict reader refuses the header, a lax one accepts it. -/
structure FindsVersion (r : BitReader) (f : Finding)
    (a b : Except Fault (StreamInfo × BitReader)) : Prop where
  version : ∃ version, f = .unexpectedVersion version
  strict : a = .error f.fault
  lax : ∃ info r' n, r.Passes n r' ∧ b = .ok (info, r')

/-- What is left to do, and to log, once both parts of the header have been read. -/
def concludeLogged (failLevel : Level) (preamble : Preamble) (waveHeader : Bytes) (r : BitReader) :
    Checked (StreamInfo × BitReader) := do
  let wave ← WaveFormat.parse waveHeader
  if latestVersion < preamble.version then
    Checked.report failLevel .warn .header (.header (.unexpectedVersion preamble.version))
  Checked.note .debug .header (ofParts preamble waveHeader wave).summary
  return (ofParts preamble waveHeader wave, r)

theorem run_read_of_parts {r r₁ r₂ : BitReader} {preamble : Preamble} {waveHeader : Bytes}
    (hpreamble : Preamble.read r = .ok (preamble, r₁))
    (hheader : readWaveHeader r₁ = .ok (waveHeader, r₂)) (failLevel : Level) :
    (read failLevel r).run = (concludeLogged failLevel preamble waveHeader r₂).run := by
  rw [read, hpreamble]
  exact (Checked.run_bind_of_eq rfl _).trans (Checked.run_bind_of_eq hheader _)

theorem weighed_concludeLogged (preamble : Preamble) (waveHeader : Bytes) {r r' : BitReader}
    (hpasses : ∃ n, r.Passes n r') :
    Weighed (fun _ a => a) (Raises Fault.Ordinary) (FindsVersion r)
      fun level => (concludeLogged level preamble waveHeader r').run := by
  have hquiet := WaveFormat.warnings_parse waveHeader
  have hordinary := WaveFormat.raises_parse waveHeader
  rw [Checked.log] at hquiet
  rw [Checked.outcome] at hordinary
  cases hparse : (WaveFormat.parse waveHeader).run with
  | mk outcome log =>
  rw [hparse] at hquiet hordinary
  cases outcome with
  | error fault =>
    refine .plain (.error fault) log (fun level => ?_) hquiet (.error (hordinary fault rfl))
    rw [concludeLogged, Checked.run_bind_of_error hparse]
  | ok wave =>
    by_cases hversion : latestVersion < preamble.version
    · refine .finds (.unexpectedVersion preamble.version)
        (.error (.header (.unexpectedVersion preamble.version)))
        (.ok (ofParts preamble waveHeader wave, r')) log
        [⟨.debug, .header, (ofParts preamble waveHeader wave).summary⟩]
        (fun level hlevel => ?_) (fun level hlevel => ?_) hquiet rfl ⟨⟨_, rfl⟩, rfl, ?_⟩
      · rw [concludeLogged, Checked.run_bind_of_ok hparse, if_pos hversion, Checked.report,
          if_pos hlevel]
        exact congrArg (Logged.mk _) (List.append_nil log)
      · rw [concludeLogged, Checked.run_bind_of_ok hparse, if_pos hversion, Checked.report,
          if_neg hlevel]
        rfl
      · obtain ⟨n, hn⟩ := hpasses
        exact ⟨_, _, n, hn, rfl⟩
    · refine .plain (.ok (ofParts preamble waveHeader wave, r'))
        (log ++ [⟨.debug, .header, (ofParts preamble waveHeader wave).summary⟩])
        (fun level => ?_) ?_ (.ok _)
      · rw [concludeLogged, Checked.run_bind_of_ok hparse, if_neg hversion]
        rfl
      · rw [warnings_append, hquiet]
        rfl

/-- **How reading a header depends on the fail level**, by how much of it is there. -/
theorem weighed_read (r : BitReader) :
    Weighed (fun _ a => a) (Raises Fault.Ordinary) (FindsVersion r)
      fun level => (StreamInfo.read level r).run := by
  cases hpreamble : Preamble.read r with
  | error fault =>
    refine .plain (.error fault) [] (fun level => ?_) rfl
      (.error (Preamble.raises_read r fault hpreamble))
    rw [read, hpreamble]
    rfl
  | ok x =>
  obtain ⟨preamble, r₁⟩ := x
  cases hheader : readWaveHeader r₁ with
  | error fault =>
    refine .plain (.error fault) [] (fun level => ?_) rfl
      (.error (raises_readWaveHeader r₁ fault hheader))
    rw [read, hpreamble]
    refine (Checked.run_bind_of_eq rfl _).trans ?_
    dsimp only
    rw [hheader]
    rfl
  | ok x =>
  obtain ⟨waveHeader, r₂⟩ := x
  have hpasses : ∃ n, r.Passes n r₂ := by
    obtain ⟨m, hm, -⟩ := Preamble.selfDelimiting_read.ok hpreamble
    obtain ⟨n, -, hn⟩ := passes_of_readWaveHeader hheader
    exact ⟨m + n, hm.trans hn⟩
  exact (weighed_concludeLogged preamble waveHeader hpasses).of_eq
    (run_read_of_parts hpreamble hheader)

end StreamInfo

/-! ## Passes -/

namespace Stream

/-- What a missing quit command comes to: a strict reader gives up, for a lax one the stream ends
there. -/
structure FindsEnd (r : BitReader) (f : Finding) (a b : Pass) : Prop where
  missing : ∃ bitsLeft, f = .missingQuit bitsLeft
  strict : a.outcome = .error f.fault
  stream : b.stream = a.stream
  lax : ∃ r' n, r.Passes n r' ∧ b.outcome = .ok (.quit, r')

theorem FindsEnd.of_passes {r r' : BitReader} {f : Finding} {a b : Pass} {n : Nat}
    (h : FindsEnd r' f a b) (hn : r.Passes n r') : FindsEnd r f a b := by
  obtain ⟨hmissing, hstrict, hstream, r'', m, hm, hlax⟩ := h
  exact ⟨hmissing, hstrict, hstream, r'', n + m, hn.trans hm, hlax⟩

/-- How a pass depends on the fail level. -/
def WeighedPass (r : BitReader) (x : Level → Logged Pass) : Prop :=
  Weighed (fun _ a => a) (fun pass => Raises Fault.Ordinary pass.outcome) (FindsEnd r) x

theorem weighedPass_pure {r : BitReader} {pass : Pass} (h : Raises Fault.Ordinary pass.outcome) :
    WeighedPass r fun _ => pure pass :=
  .plain _ _ (fun _ => rfl) rfl h

theorem weighed_endWithoutQuit (s : Stream) (available : Nat) {r r' : BitReader}
    (h : ∃ n, r.Passes n r') : WeighedPass r fun level => s.endWithoutQuit level available r' := by
  refine .finds (.missingQuit available) ⟨s, .error (.missingQuit available)⟩
    ⟨s, .ok (.quit, r')⟩ [] [] (fun level hlevel => ?_)
    (fun level hlevel => ?_) rfl rfl ⟨⟨_, rfl⟩, rfl, rfl, ?_⟩
  · rw [endWithoutQuit, Checked.report, if_pos hlevel]
    rfl
  · rw [endWithoutQuit, Checked.report, if_neg hlevel]
    rfl
  · obtain ⟨n, hn⟩ := h
    exact ⟨r', n, hn, rfl⟩

theorem weighed_endInTail (s : Stream) (r : BitReader) :
    WeighedPass r fun level => s.endInTail level r := by
  have hmissing := s.weighed_endWithoutQuit r.available ⟨0, .refl r⟩
  simp only [endInTail]
  cases Command.read r with
  | error fault => exact hmissing
  | ok x =>
    obtain ⟨c, r'⟩ := x
    cases c
    case quit => exact .plain _ _ (fun _ => rfl) rfl (.ok _)
    all_goals exact hmissing

theorem weighed_endAtFault (s : Stream) (flush : Bool) {fault : Fault} (r : BitReader)
    (h : fault.Ordinary) : WeighedPass r fun _ => s.endAtFault flush fault r := by
  simp only [endAtFault]
  split
  · exact .plain _ _ (fun _ => rfl) rfl (.ok _)
  · exact weighedPass_pure (.error h)

/-- **How a pass depends on the fail level**, by what happens to its next command. -/
theorem weighed_runCommands [Memory] (s : Stream) (flush : Bool) (r : BitReader) :
    WeighedPass r fun level => s.runCommands level flush r := by
  cases hnext : s.next? r with
  | some x =>
    obtain ⟨⟨e, s'⟩, r'⟩ := x
    obtain ⟨n, -, hn, -⟩ := next?_within hnext
    have := available_lt_of_next? hnext
    refine Weighed.of_eq (Weighed.behind ?_ (s.warnings_remarks r))
      fun level => runCommands_of_next? hnext level flush
    cases e with
    | silent => exact (s'.weighed_runCommands flush r').mono fun h => h.of_passes hn
    | pause | frame f | quit => exact weighedPass_pure (.ok _)
  | none =>
    by_cases hlen : r.available < Command.minimalBits
    · simp only [runCommands_of_short hlen]
      split
      · exact s.weighed_endInTail r
      · exact weighedPass_pure (.ok _)
    · have hlen := Nat.le_of_not_lt hlen
      obtain ⟨fault, hfault⟩ := exists_fault_of_stuck hnext hlen
      have hordinary := s.raises_carryOut r fault hfault
      refine Weighed.of_eq (Weighed.behind ?_ (s.warnings_remarks r))
        fun level => runCommands_of_error hlen hfault level flush
      split
      · exact weighedPass_pure (.error hordinary)
      split
      · exact s.weighed_endAtFault false r hordinary
      split
      · exact s.weighed_endWithoutQuit _ (passes_cutOff r)
      · exact weighedPass_pure (.error hordinary)
termination_by r.available

end Stream

/-! ## Calls -/

namespace Decoder

/-- The decoder at another fail level. -/
def atLevel (d : Decoder) (failLevel : Level) : Decoder :=
  { d with failLevel }

/-- What a pass leads to: the state of the stream, and how the pass ended. -/
abbrev PassResult :=
  Option Stream × Except Fault (Stream.PassEnd × BitReader)

/-- What is left of a pass once the header was read, or was not. -/
def behindHeader [Memory] (flush : Bool) (r : BitReader) :
    Except Fault (StreamInfo × BitReader) → Logged PassResult
  | .error fault =>
    if fault.isOverread && !flush then pure (none, .ok (.suspended, r))
    else pure (none, .error fault)
  | .ok (info, r) =>
    match Stream.start info with
    | .error fault => pure (none, .error fault)
    | .ok s => pure (some s, .ok (.paused, r))

/-- The pass over the bits of `r`, with its log. -/
def overPass [Memory] (d : Decoder) (flush : Bool) (r : BitReader) : Logged PassResult :=
  match d.stream with
  | none => d.readHeader flush r
  | some s => do
    let pass ← s.runCommands d.failLevel flush r
    pure (some pass.stream, pass.outcome)

/-- What a decoder makes of a pass. -/
def conclude (d : Decoder) (pass : PassResult) : Logged (Decoder × Except Fault Status) :=
  match pass.2 with
  | .error fault => pure (giveUp { d with stream := pass.1 } fault)
  | .ok (ending, r) => settle { d with stream := pass.1 } ending r

/-- What a finding in a pass comes to for a strict reader and for a lax one. -/
inductive FindsPass (stream : Option Stream) (r : BitReader) :
    Finding → PassResult → PassResult → Prop
  | version {version : UInt8} {s : Stream} {r' : BitReader} {n : Nat} (hs : stream = none)
      (hn : r.Passes n r') :
      FindsPass stream r (.unexpectedVersion version)
        (none, .error (.header (.unexpectedVersion version))) (some s, .ok (.paused, r'))
  /-- There is no room for the histories that the header asks for. -/
  | tooLarge {version : UInt8} {purpose : String} {elements : Nat} (hs : stream = none) :
      FindsPass stream r (.unexpectedVersion version)
        (none, .error (.header (.unexpectedVersion version)))
        (none, .error (.storage (.allocation purpose elements)))
  | missingQuit {bitsLeft : Nat} {s : Stream} {r' : BitReader} {n : Nat}
      (hs : stream.isSome = true) (hn : r.Passes n r') :
      FindsPass stream r (.missingQuit bitsLeft)
        (some s, .error (.missingQuit bitsLeft)) (some s, .ok (.quit, r'))

/-- What a finding in a call comes to for a lax reader: it goes on, if there is room for it to. -/
inductive GoesOn {α : Type} (stream : Option Stream) : Finding → Decoder × Except Fault α → Prop
  | version {version : UInt8} {d' : Decoder} {answer : α} (hs : stream = none)
      (hs' : d'.stream.isSome = true) : GoesOn stream (.unexpectedVersion version) (d', .ok answer)
  | tooLarge {version : UInt8} {purpose : String} {elements : Nat} {d' : Decoder}
      (hs : stream = none) :
      GoesOn stream (.unexpectedVersion version)
        (d', .error (.storage (.allocation purpose elements)))
  | missingQuit {bitsLeft : Nat} {d' : Decoder} {answer : α} (hs : stream.isSome = true)
      (hc' : d'.condition = .finished) : GoesOn stream (.missingQuit bitsLeft) (d', .ok answer)

/-- What a finding in a call comes to for a strict reader and for a lax one. -/
structure Finds {α : Type} (stream : Option Stream) (f : Finding)
    (a b : Decoder × Except Fault α) : Prop where
  strict : a.2 = .error f.fault
  lax : GoesOn stream f b

/-- An answer without a finding. -/
def Unfound {α : Type} (answer : Decoder × Except Fault α) : Prop :=
  ∀ f : Finding, answer.2 ≠ .error f.fault

theorem unfound_ok {α : Type} (d : Decoder) (a : α) : Unfound (d, .ok a) := by
  intro f heq
  cases heq

variable {d : Decoder}

theorem runPass_eq [Memory] (h : d.input.bitOffset ≤ 8 * d.input.length) (flush : Bool) :
    d.runPass flush = d.overPass flush d.resume >>= d.conclude := by
  rw [runPass, PendingInput.reader_eq h, overPass]
  cases d.stream with
  | none => rfl
  | some s =>
    dsimp only
    rw [bind_assoc]
    rfl

theorem warnings_conclude (d : Decoder) (pass : PassResult) :
    warnings (d.conclude pass).log = [] := by
  obtain ⟨stream, fault | ⟨ending, r⟩⟩ := pass
  · rfl
  · simp only [conclude, settle]
    split
    · rfl
    · split <;> rfl

/-- Puts a fail level into the answer of a decoder. -/
def placed {α : Type} (failLevel : Level) (answer : Decoder × Except Fault α) :
    Decoder × Except Fault α :=
  (answer.1.atLevel failLevel, answer.2)

theorem conclude_atLevel (d : Decoder) (level : Level) (pass : PassResult) :
    (d.atLevel level).conclude pass =
      ⟨placed level (d.conclude pass).value, (d.conclude pass).log⟩ := by
  obtain ⟨stream, fault | ⟨ending, r⟩⟩ := pass
  · rfl
  · simp only [conclude, settle, atLevel]
    cases hconsume : d.input.consume r.position with
    | mk outcome input =>
    cases outcome with
    | error fault => rfl
    | ok dropped =>
      by_cases hending : ending = .suspended
      · simp only [if_pos hending]
        rfl
      · simp only [if_neg hending]
        rfl

theorem weighed_readHeader [Memory] (d : Decoder) (flush : Bool) (r : BitReader) :
    Weighed (fun _ a => a) (fun pass => Raises Fault.Ordinary pass.2) (FindsPass none r)
      fun level => (d.atLevel level).readHeader flush r := by
  have hstart := Stream.raises_start (P := fun fault => ∃ purpose elements,
    fault = .storage (.allocation purpose elements)) (fun purpose elements => ⟨_, _, rfl⟩)
  refine (StreamInfo.weighed_read r).bind (behindHeader flush r) (fun _ _ => rfl)
    (fun outcome => ?_) (fun outcome hclean => ?_) (fun f a b hfound => ?_)
  · cases outcome <;> (rw [behindHeader]; split <;> rfl)
  · cases outcome with
    | error fault =>
      rw [behindHeader]
      split
      · exact .ok _
      · exact .error (hclean fault rfl)
    | ok x =>
      obtain ⟨info, r'⟩ := x
      rw [behindHeader]
      cases hfault : Stream.start info with
      | error fault =>
        obtain ⟨purpose, elements, rfl⟩ := hstart info fault hfault
        exact .error trivial
      | ok s => exact .ok _
  · obtain ⟨⟨version, rfl⟩, rfl, info, r', n, hn, rfl⟩ := hfound
    rw [behindHeader, behindHeader]
    cases hfault : Stream.start info with
    | error fault =>
      obtain ⟨purpose, elements, rfl⟩ := hstart info fault hfault
      exact ⟨.tooLarge rfl, rfl⟩
    | ok s => exact ⟨.version rfl hn, rfl⟩

theorem weighed_overPass [Memory] (d : Decoder) (flush : Bool) (r : BitReader) :
    Weighed (fun _ a => a) (fun pass => Raises Fault.Ordinary pass.2) (FindsPass d.stream r)
      fun level => (d.atLevel level).overPass flush r := by
  cases hd : d.stream with
  | none =>
    refine (d.weighed_readHeader flush r).of_eq fun level => ?_
    rw [overPass, show (d.atLevel level).stream = none from hd]
  | some s =>
    refine ((s.weighed_runCommands flush r).bind
      (fun pass => pure (some pass.stream, pass.outcome)) (fun _ _ => rfl) (fun _ => rfl)
      (fun _ h => h) ?_).of_eq fun level => ?_
    · rintro f ⟨s', outcome⟩ ⟨s'', outcome'⟩ ⟨⟨bitsLeft, rfl⟩, rfl, rfl, r', n, hn, rfl⟩
      exact ⟨.missingQuit rfl hn, rfl⟩
    · rw [overPass, show (d.atLevel level).stream = some s from hd]
      rfl

theorem unfound_conclude (d : Decoder) {pass : PassResult} (h : Raises Fault.Ordinary pass.2) :
    Unfound (d.conclude pass).value := by
  intro f
  obtain ⟨stream, fault | ⟨ending, r⟩⟩ := pass
  · exact fun heq => (h fault rfl).reported_ne _ f (Except.error.inj heq)
  · simp only [conclude, settle]
    cases hconsume : d.input.consume r.position with
    | mk outcome input =>
    cases outcome with
    | error fault =>
      have hordinary : fault.Ordinary := by
        rw [PendingInput.consume] at hconsume
        split at hconsume <;> cases hconsume
        exact trivial
      exact fun heq => hordinary.reported_ne _ f (Except.error.inj heq)
    | ok dropped =>
      by_cases hending : ending = .suspended
      · simp only [if_pos hending]
        exact unfound_ok _ _ f
      · simp only [if_neg hending]
        exact unfound_ok _ _ f

/-- A pass that succeeds is one that the decoder can go on from. -/
theorem value_conclude_of_passes (hoffset : d.input.bitOffset ≤ 8 * d.input.length)
    (stream : Option Stream) (ending : Stream.PassEnd) (hending : ending ≠ .suspended)
    {r' : BitReader} {n : Nat} (hn : d.resume.Passes n r') :
    ∃ p, (d.conclude (stream, .ok (ending, r'))).value =
      ({ d with
        stream
        input := p
        condition := if ending = .quit then .finished else d.condition },
        .ok (statusOf ending)) := by
  obtain ⟨k, p, hconsume, -⟩ := PendingInput.consume_of_passes hoffset hn
  refine ⟨p, (value_settle (d := { d with stream }) hconsume).trans ?_⟩
  rw [if_neg hending]

theorem FindsPass.conclude (hoffset : d.input.bitOffset ≤ 8 * d.input.length) {f : Finding}
    {a b : PassResult} (h : FindsPass d.stream d.resume f a b) :
    Finds d.stream f (d.conclude a).value (d.conclude b).value ∧ (d.conclude a).log = [] := by
  cases h with
  | version hd hn =>
    obtain ⟨p, hp⟩ := value_conclude_of_passes hoffset (some _) .paused nofun hn
    rw [hp]
    exact ⟨⟨rfl, .version hd rfl⟩, rfl⟩
  | tooLarge hd => exact ⟨⟨rfl, .tooLarge hd⟩, rfl⟩
  | missingQuit hd hn =>
    obtain ⟨p, hp⟩ := value_conclude_of_passes hoffset (some _) .quit nofun hn
    rw [hp]
    exact ⟨⟨rfl, .missingQuit hd rfl⟩, rfl⟩

theorem weighed_runPass [Memory] (hoffset : d.input.bitOffset ≤ 8 * d.input.length) (flush : Bool) :
    Weighed placed Unfound (Finds d.stream) fun level => (d.atLevel level).runPass flush :=
  ((d.weighed_overPass flush d.resume).bind (k := fun level => (d.atLevel level).conclude)
    d.conclude d.conclude_atLevel d.warnings_conclude (fun _ => d.unfound_conclude)
    fun _ _ _ h => h.conclude hoffset).of_eq
    fun level => runPass_eq (d := d.atLevel level) hoffset flush

theorem Finds.map {α β : Type} {stream : Option Stream} {f : Finding}
    {a b : Decoder × Except Fault α} (h : Finds stream f a b) (g : α → β) :
    Finds stream f (a.1, a.2.map g) (b.1, b.2.map g) := by
  obtain ⟨hstrict, hlax⟩ := h
  rw [hstrict]
  refine ⟨rfl, ?_⟩
  cases hlax with
  | version hs hs' => exact .version hs hs'
  | tooLarge hs => exact .tooLarge hs
  | missingQuit hs hc' => exact .missingQuit hs hc'

theorem Unfound.map {α β : Type} {answer : Decoder × Except Fault α} (h : Unfound answer)
    (g : α → β) : Unfound (answer.1, answer.2.map g) := by
  intro f heq
  obtain ⟨d', outcome | fault⟩ := answer
  · exact h f (congrArg _ (Except.error.inj heq))
  · cases heq

theorem decode_of_active [Memory] (hc : d.condition = .active) (offered : Option Bytes)
    (hroom : d.input.append (offered.getD []) = .ok (d.input.fill (offered.getD []))) :
    d.decode offered =
      if (d.filled offered).isReady offered.isNone then
        runPass { d with input := d.filled offered } offered.isNone >>= fun answer =>
          pure (answer.1, answer.2.map (⟨d.taken offered, ·⟩))
      else pure ({ d with input := d.filled offered }, .ok ⟨d.taken offered, .needMoreInput⟩) := by
  rw [decode, hc]
  dsimp only
  rw [hroom]
  rfl

/-- **How a call depends on the fail level.** -/
theorem weighed_decode [Memory] (hoffset : d.input.bitOffset ≤ 8 * d.input.length)
    (offered : Option Bytes) :
    Weighed placed Unfound (Finds d.stream) fun level => (d.atLevel level).decode offered := by
  cases hc : d.condition with
  | failed =>
    refine .plain (d, .error .failedBefore) [] (fun level => ?_) rfl ?_
    · rw [decode, show (d.atLevel level).condition = .failed from hc]
      rfl
    · intro f heq
      cases f <;> cases heq
  | finished =>
    refine .plain (d, .ok ⟨(offered.getD []).length, .finished⟩) []
      (fun level => ?_) rfl (unfound_ok d _)
    rw [decode, show (d.atLevel level).condition = .finished from hc]
    rfl
  | active =>
    rcases d.input.append_cases (offered.getD []) with hroom | hroom
    case inr =>
      refine .plain ({ d with input := d.input.clear, condition := .failed },
        .error (.storage (.allocation Purpose.input.name (d.filled offered).length))) []
        (fun level => ?_) rfl ?_
      · rw [decode, show (d.atLevel level).condition = .active from hc]
        dsimp only
        rw [show (d.atLevel level).input.append (offered.getD []) = _ from hroom]
        rfl
      · intro f heq
        cases f <;> cases heq
    let d₁ : Decoder := { d with input := d.filled offered }
    have hdecode := fun level => decode_of_active (d := d.atLevel level) hc offered hroom
    have hoffset₁ : d₁.input.bitOffset ≤ 8 * d₁.input.length := by
      rw [length_filled]
      exact Nat.le_trans hoffset (Nat.mul_le_mul_left 8 (Nat.le_add_right _ _))
    by_cases hready : d₁.input.isReady offered.isNone = true
    · refine ((weighed_runPass hoffset₁ offered.isNone).bind
        (k := fun _ answer => pure (answer.1, answer.2.map (⟨d.taken offered, ·⟩)))
        (fun answer => pure (answer.1, answer.2.map (⟨d.taken offered, ·⟩)))
        (fun _ _ => rfl) (fun _ => rfl) (fun _ hclean => hclean.map _)
        fun _ _ _ h => ⟨h.map _, rfl⟩).of_eq fun level => ?_
      rw [hdecode, if_pos (by exact hready)]
      rfl
    · refine .plain (d₁, .ok ⟨d.taken offered, .needMoreInput⟩) []
        (fun level => ?_) rfl (unfound_ok d₁ _)
      rw [hdecode, if_neg (by exact hready)]
      rfl

end Decoder

end LosslessAudio
