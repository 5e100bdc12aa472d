import LosslessAudio.Proofs.Codewords
import LosslessAudio.Proofs.Findings

/-!
# How a stream ends when its input does

Once the input is complete, a pass has to make something of every string of bits that is left
between two commands.  `Decoder.flushed_of_boundary` says what: a quit command ends the stream,
however few bits follow it, and so does a code that is taken for its code; too few bits for a
command, or no complete command code, end it with the finding that there was none; and where the
code is complete, the command is unknown, or the input was cut short within it, or the pass goes on
behind it.

The boundary may be any that the pass gets to: `Stream.Silently` is the way from the place where the
pass begins, over commands that do not end it.
-/

set_option autoImplicit false

namespace LosslessAudio

namespace Stream

/-- Commands that do not end a pass lead from one place between two commands to another. -/
inductive Silently [Memory] : Stream → BitReader → Stream → BitReader → Prop
  | refl (s : Stream) (r : BitReader) : Silently s r s r
  | step {s s' s'' : Stream} {r r' r'' : BitReader}
      (h : s.next? r = some ((.silent, s'), r')) (hrest : Silently s' r' s'' r'') :
      Silently s r s'' r''

namespace Silently

variable {s s' : Stream} {r r' : BitReader}

theorem passes [Memory] (h : s.Silently r s' r') : ∃ n, r.Passes n r' := by
  induction h with
  | refl s r => exact ⟨0, .refl r⟩
  | step h _ ih =>
    obtain ⟨m, -, hm, -⟩ := next?_within h
    obtain ⟨n, hn⟩ := ih
    exact ⟨m + n, hm.trans hn⟩

/-- A pass goes on from there, and has not warned of anything yet. -/
theorem runCommands [Memory] (h : s.Silently r s' r') (failLevel : Level) (flush : Bool) :
    ∃ log, warnings log = [] ∧ s.runCommands failLevel flush r =
      (⟨(), log⟩ : Logged Unit) >>= fun _ => s'.runCommands failLevel flush r' := by
  induction h with
  | refl s r => exact ⟨[], rfl, Logged.ext rfl rfl⟩
  | @step s s' s'' r r' r'' h _ ih =>
    obtain ⟨log, hlog, hrun⟩ := ih
    refine ⟨s.remarks r ++ log, ?_, ?_⟩
    · rw [warnings_append, warnings_remarks, hlog, List.append_nil]
    · rw [runCommands_of_next? h, hrun]
      exact Logged.ext rfl (List.append_assoc _ _ _).symm

end Silently

end Stream

/-! ## What a pass makes of the bits that are left -/

namespace Command

/-- The bits of a command code, which a reader takes for a 32-bit number. -/
def codeBits (code : Nat) : List Bool :=
  Code.rice codeParameter code

theorem read_of_prefix {c : Command} {r : BitReader} {code : Nat} (h : codeBits code <+: r.rest)
    (hc : code % 2 ^ 32 = c.code) :
    Command.read r = .ok (c, r.advance (codeBits code).length) := by
  have hcode : ofCode? (UInt32.ofNat code).toNat = some c := by
    rw [UInt32.toNat_ofNat', hc, ofCode?_code]
  rw [Command.read, BitReader.rice_of_prefix (by decide) h]
  refine (ok_bind _ _).trans ?_
  dsimp only
  rw [hcode]
  rfl

theorem read_of_unknown {r : BitReader} {code : Nat} (h : codeBits code <+: r.rest)
    (hc : Command.verbatim.code < code % 2 ^ 32) :
    Command.read r = .error (.command (.unknown (code % 2 ^ 32))) := by
  have hnone : ofCode? (code % 2 ^ 32) = none := List.getElem?_eq_none hc
  rw [Command.read, BitReader.rice_of_prefix (by decide) h]
  refine (ok_bind _ _).trans ?_
  dsimp only
  rw [UInt32.toNat_ofNat', hnone]
  rfl

/-- A command that was read has its code there. -/
theorem exists_code_of_read {c : Command} {r r' : BitReader} (h : Command.read r = .ok (c, r')) :
    ∃ code, code % 2 ^ 32 = c.code ∧ r.rest = codeBits code ++ r'.rest := by
  obtain ⟨⟨u, r₁⟩, hu, h⟩ := bind_eq_ok.1 h
  obtain ⟨code, rfl, hrest⟩ := BitReader.rest_of_rice (lift_read_eq_ok.1 hu)
  dsimp only at h
  split at h
  · rename_i hc
    cases h
    rw [UInt32.toNat_ofNat'] at hc
    exact ⟨code, (code_of_ofCode? hc).symm, hrest⟩
  · cases h

theorem isOverread_of_read {r : BitReader} {fault : Fault} (h : Command.read r = .error fault)
    (hnone : ∀ code, ¬codeBits code <+: r.rest) : fault.isOverread = true := by
  rcases bind_eq_error.1 h with h | ⟨⟨u, r₁⟩, hu, -⟩
  · obtain ⟨cause, hcause, rfl⟩ := lift_read_eq_error.1 h
    rw [BitReader.eq_pastEnd_of_rice (by decide) hcause]
    rfl
  · obtain ⟨code, -, hrest⟩ := BitReader.rest_of_rice (lift_read_eq_ok.1 hu)
    exact absurd ⟨_, hrest.symm⟩ (hnone code)

end Command

namespace Stream

/-- A pass over complete input that ends the stream in the state `s`, with the warnings `found`. -/
def StopsAt (pass : Logged Pass) (s : Stream) (r : BitReader) (found : List Record) : Prop :=
  warnings pass.log = found ∧ ∃ n r', r.Passes n r' ∧ pass.value = ⟨s, .ok (.quit, r')⟩

/-- A pass that fails, and has not warned of anything. -/
def BreaksOff (pass : Logged Pass) (fault : Fault) : Prop :=
  warnings pass.log = [] ∧ pass.value.outcome = .error fault

variable (s : Stream) (failLevel : Level) {r : BitReader}

/-- A quit command is recognised however few bits follow it, and so is any code that counts as the
one of a quit command. -/
theorem stopsAt_of_quit [Memory] {code : Nat} (h : Command.codeBits code <+: r.rest)
    (hc : code % 2 ^ 32 = Command.quit.code) :
    StopsAt (s.runCommands failLevel true r) s r [] := by
  have hread := Command.read_of_prefix (c := .quit) h hc
  obtain ⟨q, hpasses⟩ := Command.passes_of_read hread
  by_cases hlen : r.available < Command.minimalBits
  · rw [runCommands_of_short hlen, if_pos rfl, endInTail, hread]
    exact ⟨rfl, _, _, hpasses, rfl⟩
  · have hnext := next?_eq_some.2 ⟨Nat.le_of_not_lt hlen,
      carryOut_eq_ok.2 ⟨_, _, hread, s.outcome_execute_quit _⟩⟩
    rw [runCommands_of_next? hnext]
    exact ⟨Logged.warnings_behind (s.warnings_remarks r) _, _, _, hpasses, rfl⟩

/-- Where there is no quit command and not the code of another one, the stream ends without it. -/
theorem runCommands_of_missing [Memory] (hquit : ¬Command.codeBits Command.quit.code <+: r.rest)
    (hnone : r.available < Command.minimalBits ∨ ∀ code, ¬Command.codeBits code <+: r.rest) :
    ∃ n r', r.Passes n r' ∧
      s.runCommands failLevel true r = s.endWithoutQuit failLevel r.available r' := by
  by_cases hlen : r.available < Command.minimalBits
  · refine ⟨0, r, .refl r, ?_⟩
    rw [runCommands_of_short hlen, if_pos rfl, endInTail]
    split
    · -- among so few bits there is no other code that counts as that of a quit command
      rename_i hread
      obtain ⟨code, hcode, hrest⟩ := Command.exists_code_of_read hread
      have hlength : (Command.codeBits code).length < Command.minimalBits := by
        rw [BitReader.available, hrest, List.length_append] at hlen
        omega
      rw [Command.codeBits, Code.length_rice] at hlength
      have hlt : code / 2 ^ 2 < 2 := by
        simp only [Command.codeParameter, Command.minimalBits] at hlength
        omega
      have hquit' : code = Command.quit.code := by
        rw [← hcode]
        omega
      exact absurd ⟨_, (hquit' ▸ hrest).symm⟩ hquit
    · rfl
  · have hnone := hnone.resolve_left hlen
    have hlen := Nat.le_of_not_lt hlen
    obtain ⟨n, hn⟩ := passes_cutOff r
    refine ⟨n, cutOff r, hn, ?_⟩
    cases hread : Command.read r with
    | ok x =>
      obtain ⟨code, -, hrest⟩ := Command.exists_code_of_read hread
      exact absurd ⟨_, hrest.symm⟩ (hnone code)
    | error fault =>
      have hover := Command.isOverread_of_read hread hnone
      rw [runCommands_of_error hlen (carryOut_eq_error.2 (.inl hread)), hread,
        if_neg (by rw [hover]; decide), if_neg (by decide), remarks, hread]
      exact Logged.ext rfl rfl

theorem breaksOff_of_unknown [Memory] (hlen : Command.minimalBits ≤ r.available) {code : Nat}
    (h : Command.codeBits code <+: r.rest) (hc : Command.verbatim.code < code % 2 ^ 32) :
    BreaksOff (s.runCommands failLevel true r) (.command (.unknown (code % 2 ^ 32))) := by
  have hread := Command.read_of_unknown h hc
  have hfinal : (Fault.command (.unknown (code % 2 ^ 32))).isOverread = false := rfl
  rw [runCommands_of_error hlen (carryOut_eq_error.2 (.inl hread)), if_pos hfinal]
  exact ⟨Logged.warnings_behind (s.warnings_remarks r) _, rfl⟩

/-- A command that is cut short is no end of a stream. -/
theorem breaksOff_of_cut [Memory] (hlen : Command.minimalBits ≤ r.available) {code : Nat}
    {c : Command}
    (h : Command.codeBits code <+: r.rest) (hc : code % 2 ^ 32 = c.code) {fault : Fault}
    (hfault : (s.execute c (r.advance (Command.codeBits code).length)).outcome = .error fault)
    (hover : fault.isOverread = true) : BreaksOff (s.runCommands failLevel true r) fault := by
  have hread := Command.read_of_prefix h hc
  rw [runCommands_of_error hlen (carryOut_eq_error.2 (.inr ⟨_, _, hread, hfault⟩)), hread,
    if_neg (by rw [hover]; decide), if_neg (by decide)]
  exact ⟨Logged.warnings_behind (s.warnings_remarks r) _, rfl⟩

end Stream

/-! ## What a flush makes of them -/

namespace Decoder

variable {d : Decoder} {s₀ s : Stream} {r : BitReader}

/-- A flush that ends the stream in the state `s`, with the warnings `found`. -/
structure FlushEnds [Memory] (d : Decoder) (s : Stream) (found : List Record) : Prop where
  answer : (d.decode none).value.2 = .ok ⟨0, .noFrame⟩
  warnings : warnings (d.decode none).log = found
  stream : (d.decode none).value.1.stream = some s
  finished : (d.decode none).value.1.condition = .finished
  /-- Nothing else ever comes of the decoder. -/
  later : ∀ offered, ((d.decode none).value.1.decode offered).value =
    ((d.decode none).value.1, .ok ⟨(offered.getD []).length, .finished⟩)

/-- A flush that fails, and does not warn of anything. -/
structure FlushFails [Memory] (d : Decoder) (fault : Fault) : Prop where
  answer : (d.decode none).value.2 = .error fault
  warnings : LosslessAudio.warnings (d.decode none).log = []
  failed : (d.decode none).value.1.condition = .failed

/-- What a flush comes to that gets to the reader `r`, in the state `s`, between two commands. -/
structure Flushed [Memory] (d : Decoder) (s : Stream) (r : BitReader) : Prop where
  /-- A quit command is recognised whatever follows it, and if nothing does. -/
  quit : Command.codeBits Command.quit.code <+: r.rest → d.FlushEnds s []
  /-- Without one, too few bits for a command, or for its code, are a finding. -/
  missing : ¬Command.codeBits Command.quit.code <+: r.rest →
    r.available < 5 ∨ (∀ code, ¬Command.codeBits code <+: r.rest) →
      if Level.warn ≤ d.failLevel then d.FlushFails (.missingQuit r.available)
      else d.FlushEnds s [(Finding.missingQuit r.available).record]
  /-- The reader keeps 32 bits of a code.  Where these are the code of a quit command, the stream
  ends as well, though the code is another one. -/
  wrapped : ∀ code, Command.codeBits code <+: r.rest → code % 2 ^ 32 = Command.quit.code →
    d.FlushEnds s []
  /-- A code above the known ones is refused. -/
  unknown : 5 ≤ r.available → ∀ code, Command.codeBits code <+: r.rest → 9 < code % 2 ^ 32 →
    d.FlushFails (.command (.unknown (code % 2 ^ 32)))
  /-- A known command that is cut short is refused. -/
  truncated : 5 ≤ r.available → ∀ (code : Nat) (c : Command) (fault : Fault),
    Command.codeBits code <+: r.rest → code % 2 ^ 32 = c.code →
    (s.execute c (r.advance (Command.codeBits code).length)).outcome = .error fault →
    fault.isOverread = true → d.FlushFails (.storage (.truncated d.input.length))

theorem decode_none [Memory] (hc : d.condition = .active)
    (hoffset : d.input.bitOffset ≤ 8 * d.input.length) (hs : d.stream = some s₀) :
    d.decode none = s₀.runCommands d.failLevel true d.resume >>= fun pass =>
      d.conclude (some pass.stream, pass.outcome) >>= fun answer =>
        pure (answer.1, answer.2.map (⟨0, ·⟩)) := by
  have hfilled : d.filled none = d.input := congrArg Prod.snd d.input.fill_nil
  have htaken : d.taken none = 0 := congrArg Prod.fst d.input.fill_nil
  have hready : d.input.isReady true = true := rfl
  rw [decode_of_active hc none d.input.append_nil, hfilled, htaken,
    Option.isNone_none, if_pos hready]
  show d.runPass true >>= _ = _
  rw [runPass_eq hoffset, overPass, hs]
  simp only [bind_assoc, pure_bind]

theorem value_decode_none [Memory] (hc : d.condition = .active)
    (hoffset : d.input.bitOffset ≤ 8 * d.input.length) (hs : d.stream = some s₀)
    {pass : Stream.Pass} (h : (s₀.runCommands d.failLevel true d.resume).value = pass) :
    (d.decode none).value =
      ((d.conclude (some pass.stream, pass.outcome)).value.1,
        (d.conclude (some pass.stream, pass.outcome)).value.2.map (⟨0, ·⟩)) := by
  rw [decode_none hc hoffset hs, Logged.value_bind, h]
  rfl

/-- A flush warns of what its pass warns of. -/
theorem warnings_decode_none [Memory] (hc : d.condition = .active)
    (hoffset : d.input.bitOffset ≤ 8 * d.input.length) (hs : d.stream = some s₀) :
    warnings (d.decode none).log =
      warnings (s₀.runCommands d.failLevel true d.resume).log := by
  rw [decode_none hc hoffset hs, Logged.log_bind, warnings_append, Logged.log_bind,
    warnings_append, warnings_conclude, Logged.log_pure, warnings_nil, List.append_nil,
    List.append_nil]

/-- A pass that ends the stream makes a flush that does. -/
theorem flushEnds_of_stopsAt [Memory] (hc : d.condition = .active)
    (hoffset : d.input.bitOffset ≤ 8 * d.input.length) (hs : d.stream = some s₀)
    {found : List Record}
    (h : Stream.StopsAt (s₀.runCommands d.failLevel true d.resume) s d.resume found) :
    d.FlushEnds s found := by
  obtain ⟨hlog, n, r', hn, hpass⟩ := h
  obtain ⟨p, hp⟩ := value_conclude_of_passes hoffset (some s) .quit nofun hn
  have hvalue := value_decode_none hc hoffset hs hpass
  rw [hp] at hvalue
  refine ⟨by rw [hvalue]; rfl, ?_, by rw [hvalue], by rw [hvalue]; rfl, fun offered => ?_⟩
  · rw [warnings_decode_none hc hoffset hs, hlog]
  · exact value_decode_of_finished (by rw [hvalue]; rfl) offered

/-- One that fails makes a flush that fails. -/
theorem flushFails_of_breaksOff [Memory] (hc : d.condition = .active)
    (hoffset : d.input.bitOffset ≤ 8 * d.input.length) (hs : d.stream = some s₀) {fault : Fault}
    (h : Stream.BreaksOff (s₀.runCommands d.failLevel true d.resume) fault) :
    d.FlushFails (fault.reported d.input.length) := by
  obtain ⟨hlog, hpass⟩ := h
  have hvalue := value_decode_none hc hoffset hs rfl
  rw [hpass] at hvalue
  refine ⟨by rw [hvalue]; rfl, ?_, by rw [hvalue]; rfl⟩
  rw [warnings_decode_none hc hoffset hs, hlog]

end Decoder

/-! ## From the start of the pass -/

namespace Stream

variable {s₀ s : Stream} {r₀ r : BitReader} {failLevel : Level}

theorem Silently.stopsAt [Memory] (hway : s₀.Silently r₀ s r) {found : List Record}
    (h : StopsAt (s.runCommands failLevel true r) s r found) :
    StopsAt (s₀.runCommands failLevel true r₀) s r₀ found := by
  obtain ⟨log, hquiet, hrun⟩ := hway.runCommands failLevel true
  obtain ⟨hlog, n, r', hn, hvalue⟩ := h
  obtain ⟨m, hm⟩ := hway.passes
  rw [hrun]
  exact ⟨(Logged.warnings_behind hquiet _).trans hlog, m + n, r', hm.trans hn, hvalue⟩

theorem Silently.breaksOff [Memory] (hway : s₀.Silently r₀ s r) {fault : Fault}
    (h : BreaksOff (s.runCommands failLevel true r) fault) :
    BreaksOff (s₀.runCommands failLevel true r₀) fault := by
  obtain ⟨log, hquiet, hrun⟩ := hway.runCommands failLevel true
  rw [hrun]
  exact ⟨(Logged.warnings_behind hquiet _).trans h.1, h.2⟩

end Stream

/-- **What a flush makes of the bits behind the last command.**  `r₀` is where the pass begins, and
`r` any place between two commands that it gets to.  The cases of `Flushed` cover all strings of
bits but those that begin with the complete code of a known command, other than a quit command, that
does not run out of bits. -/
theorem Decoder.flushed_of_boundary [Memory] {d : Decoder} (hc : d.condition = .active)
    {s₀ s : Stream} (hs : d.stream = some s₀) {r₀ r : BitReader} (hr₀ : d.input.reader = .ok r₀)
    (hway : s₀.Silently r₀ s r) : d.Flushed s r := by
  obtain ⟨hoffset, rfl⟩ := BitReader.passes_of_skip hr₀
  rw [BitReader.ofBytes, BitReader.available, Bits.length_ofBytes] at hoffset
  have hresume : (BitReader.ofBytes d.input.bytes).advance d.input.bitOffset = d.resume :=
    congrArg (BitReader.mk · d.input.unread) (Nat.zero_add _)
  rw [hresume] at hway
  have hends {found : List Record}
      (h : Stream.StopsAt (s.runCommands d.failLevel true r) s r found) : d.FlushEnds s found :=
    flushEnds_of_stopsAt hc hoffset hs (hway.stopsAt h)
  have hfails (fault : Fault) (h : Stream.BreaksOff (s.runCommands d.failLevel true r) fault) :
      d.FlushFails (fault.reported d.input.length) :=
    flushFails_of_breaksOff hc hoffset hs (hway.breaksOff h)
  refine ⟨fun hquit => hends (s.stopsAt_of_quit _ hquit rfl), fun hquit hnone => ?_,
    fun code h hcode => hends (s.stopsAt_of_quit _ h hcode),
    fun hlen code h hcode => hfails _ (s.breaksOff_of_unknown _ hlen h hcode),
    fun hlen code c fault h hcode hfault hover => ?_⟩
  · obtain ⟨n, r', hn, hrun⟩ := s.runCommands_of_missing d.failLevel hquit hnone
    rw [Stream.endWithoutQuit, Checked.report] at hrun
    split
    · rename_i hwarn
      rw [if_pos hwarn] at hrun
      exact hfails (.missingQuit r.available) (by rw [hrun]; exact ⟨rfl, rfl⟩)
    · rename_i hwarn
      rw [if_neg hwarn] at hrun
      exact hends (by rw [hrun]; exact ⟨rfl, n, r', hn, rfl⟩)
  · have hreported : fault.reported d.input.length = .storage (.truncated d.input.length) := by
      rw [Fault.reported, if_pos hover]
    exact hreported ▸ hfails _ (s.breaksOff_of_cut _ hlen h hcode hfault hover)

/-- A stream of one channel before its first block. -/
def idleStream : Stream :=
  { info := ⟨2, .littleEndian, 1, 4, 0, 0, 44100, 16, []⟩
    blockSize := 4
    bitshift := 0
    round := .start 1 (.initial 3 4 0 0) }

/-- Its decoder, with a bitshift command pending and behind it the last four bits of the input. -/
def lastBits : Decoder :=
  ⟨16, .warn, ⟨[0x03, 0x44], 5, 16⟩, some idleStream, .active⟩

open scoped Memory in
/-- These four bits are a quit command. -/
theorem Decoder.flushed_of_boundary_lastBits :
    ∃ r₀ r, lastBits.condition = .active ∧ lastBits.stream = some idleStream ∧
      lastBits.input.reader = .ok r₀ ∧ idleStream.Silently r₀ idleStream r ∧ r.available = 4 ∧
      lastBits.Flushed idleStream r ∧ lastBits.FlushEnds idleStream [] := by
  have hr₀ : lastBits.input.reader =
      .ok ⟨5, [false, true, true, false, true, false, false, false, true, false, false]⟩ := rfl
  have hnext : idleStream.next?
      ⟨5, [false, true, true, false, true, false, false, false, true, false, false]⟩ =
        some ((.silent, idleStream), ⟨12, [false, true, false, false]⟩) := by decide +kernel
  have hway := Stream.Silently.step hnext (.refl _ _)
  have hflushed := flushed_of_boundary (d := lastBits) rfl rfl hr₀ hway
  exact ⟨_, _, rfl, rfl, hr₀, hway, rfl, hflushed, hflushed.quit (by decide)⟩

end LosslessAudio
