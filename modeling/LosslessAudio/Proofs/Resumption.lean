import LosslessAudio.Proofs.Operation

/-!
# Resuming at the exact bit

Between two calls a machine keeps the bytes that are not used up, wherever in its buffer they stand,
and how many bits of the first of them are.  A `Ledger` keeps the account of everything that
happened since the last start instead: all bytes that were taken, and all bits of the header and of
the commands that were completed.

* `Stream.bitsAhead` and `Decoder.completedBits` — the bits of what a pass completes.
* `PendingInput.ResumesAt` — what is pending is what was taken, from a given bit on.
* `accounts_runs` — a pass that does not end the stream moves this bit by the bits of what it
  completes.
* `run?_keepsTo` — so the machine and the ledger agree, whatever a caller does and whatever memory
  the buffer has.
-/

set_option autoImplicit false

namespace LosslessAudio

/-! ## The bits of what is completed -/

/-- How many bits the commands have that a pass over `r` completes. -/
def Stream.bitsAhead [Memory] (s : Stream) (r : BitReader) : Nat :=
  match _h : s.next? r with
  | none => 0
  | some ((effect, s'), r') =>
    r.available - r'.available + if effect = .silent then s'.bitsAhead r' else 0
termination_by r.available
decreasing_by exact available_lt_of_next? ‹_›

/-- How many bits the header has, if all of it is there and nothing is wrong with it. -/
def StreamInfo.headerBits (failLevel : Level) (r : BitReader) : Nat :=
  match (StreamInfo.read failLevel r).outcome with
  | .ok (_, r') => r.available - r'.available
  | .error _ => 0

/-- How many bits the header has, or the commands, that a pass over `r` completes. -/
def Decoder.passBits [Memory] (d : Decoder) (r : BitReader) : Nat :=
  match d.stream with
  | none => StreamInfo.headerBits d.failLevel r
  | some s => s.bitsAhead r

/-- How many bits the header has, or the commands, that a call completes. -/
def Decoder.completedBits [Memory] (d : Decoder) (offered : Option Bytes) : Nat :=
  (d.passStart offered).elim 0 d.passBits

namespace Stream

theorem bitsAhead_of_stuck [Memory] {s : Stream} {r : BitReader} (h : s.next? r = none) :
    s.bitsAhead r = 0 := by
  rw [bitsAhead]
  split
  · rfl
  · rename_i h'
    rw [h] at h'
    cases h'

theorem bitsAhead_of_next? [Memory] {s s' : Stream} {e : Command.Effect} {r r' : BitReader}
    (h : s.next? r = some ((e, s'), r')) : s.bitsAhead r =
      r.available - r'.available + if e = .silent then s'.bitsAhead r' else 0 := by
  rw [bitsAhead]
  split
  · rename_i h'
    rw [h] at h'
    cases h'
  · rename_i h'
    rw [h] at h'
    cases h'
    rfl

/-- A command ends behind its bits. -/
theorem passes_of_next? [Memory] {s s' : Stream} {e : Command.Effect} {r r' : BitReader}
    (h : s.next? r = some ((e, s'), r')) : r.Passes (r.available - r'.available) r' := by
  obtain ⟨n, -, hn, -⟩ := next?_within h
  rwa [← hn.available_eq, Nat.add_sub_cancel_left]

/-- **A pass that does not end the stream ends behind the commands that it completes.** -/
theorem passes_runCommands [Memory] {s : Stream} {failLevel : Level} {flush : Bool}
    {r r' : BitReader}
    {ending : PassEnd} (h : (s.runCommands failLevel flush r).value.outcome = .ok (ending, r'))
    (hquit : ending ≠ .quit) : r.Passes (s.bitsAhead r) r' := by
  cases hnext : s.next? r with
  | none =>
    rw [bitsAhead_of_stuck hnext]
    cases flush with
    | true => exact absurd ((runCommands_of_stuck hnext failLevel).2 h).1 hquit
    | false =>
      by_cases hlen : r.available < Command.minimalBits
      · rw [value_runCommands_of_short hlen, if_neg Bool.false_ne_true] at h
        cases h
        exact .refl r
      · have hlen := Nat.le_of_not_lt hlen
        obtain ⟨fault, hfault⟩ := exists_fault_of_stuck hnext hlen
        rw [value_runCommands_of_error hlen hfault, if_pos rfl] at h
        split at h
        · cases h
        · cases h
          exact .refl r
  | some x =>
    obtain ⟨⟨e, s'⟩, r₁⟩ := x
    have hcommand := passes_of_next? hnext
    have := available_lt_of_next? hnext
    rw [value_runCommands_of_next? hnext] at h
    rw [bitsAhead_of_next? hnext]
    cases e with
    | silent => exact hcommand.trans (passes_runCommands h hquit)
    | quit =>
      cases h
      exact absurd rfl hquit
    | pause | frame f =>
      cases h
      exact hcommand
termination_by r.available

end Stream

/-- So does a pass over the header. -/
theorem Decoder.passes_passOver [Memory] {d : Decoder} {flush : Bool} {r r' : BitReader}
    {ending : Stream.PassEnd} (h : (d.passOver flush r).2 = .ok (ending, r'))
    (hquit : ending ≠ .quit) : r.Passes (d.passBits r) r' := by
  rw [passBits]
  cases hd : d.stream with
  | some s =>
    rw [passOver, hd] at h
    exact Stream.passes_runCommands h hquit
  | none =>
    have hheads := heads_passOver hd flush r
    generalize d.passOver flush r = answer at h hheads
    dsimp only
    cases hheads with
    | waits hread =>
      cases h
      rw [StreamInfo.headerBits, hread]
      exact .refl r
    | refused | tooLarge => cases h
    | parsed hread =>
      cases h
      obtain ⟨n, -, hn⟩ := StreamInfo.passes_of_read hread
      rw [StreamInfo.headerBits, hread]
      dsimp only
      rwa [← hn.available_eq, Nat.add_sub_cancel_left]

/-! ## What is pending -/

namespace PendingInput

/-- What is pending is what was taken, from bit `position` on. -/
structure ResumesAt (p : PendingInput) (taken : Bytes) (position : Nat) : Prop where
  bytes : p.bytes = taken.drop (position / 8)
  bitOffset : p.bitOffset = position % 8
  position_le : position ≤ 8 * taken.length

variable {p : PendingInput} {taken : Bytes} {position : Nat}

theorem ResumesAt.length_eq (h : p.ResumesAt taken position) :
    p.length = taken.length - position / 8 := by
  rw [length, h.bytes, List.length_drop]

/-- Everything that was taken is used up or still to come. -/
theorem ResumesAt.length_unread (h : p.ResumesAt taken position) :
    p.unread.length + position = 8 * taken.length := by
  have hle := h.position_le
  rw [PendingInput.length_unread, h.length_eq, h.bitOffset]
  omega

theorem ResumesAt.bitOffset_le (h : p.ResumesAt taken position) : p.bitOffset ≤ 8 * p.length := by
  have hle := h.position_le
  rw [h.length_eq, h.bitOffset]
  omega

theorem resumesAt_fill (h : p.ResumesAt taken position) (offered : Bytes) :
    (p.fill offered).2.ResumesAt (taken ++ offered.take (p.fill offered).1) position := by
  have htaken : offered.take (p.fill offered).1 = offered.take p.room := by
    rw [consumed_fill, ← List.take_take, List.take_length]
  have hle : position / 8 ≤ taken.length := by
    have := h.position_le
    omega
  refine ⟨?_, h.bitOffset, ?_⟩
  · rw [htaken, List.drop_append_of_le_length hle, ← h.bytes]
    rfl
  · rw [List.length_append]
    exact Nat.le_trans h.position_le (Nat.mul_le_mul_left 8 (Nat.le_add_right _ _))

/-- Using bits up moves the place. -/
theorem resumesAt_consume (h : p.ResumesAt taken position) {n k : Nat} {r' : BitReader}
    {p' : PendingInput} (hn : (⟨p.bitOffset, p.unread⟩ : BitReader).Passes n r')
    (hp' : p.consume r'.position = (.ok k, p')) : p'.ResumesAt taken (position + n) := by
  obtain ⟨hle, rfl⟩ := hn
  have hposition : (BitReader.advance ⟨p.bitOffset, p.unread⟩ n).position = p.bitOffset + n := rfl
  have hplace : position / 8 + (position % 8 + n) / 8 = (position + n) / 8 := by omega
  rw [BitReader.available, length_unread, h.length_eq, h.bitOffset] at hle
  rw [hposition, h.bitOffset, consume] at hp'
  split at hp'
  · cases hp'
  · cases hp'
    have := h.position_le
    refine ⟨?_, ?_, by omega⟩
    · show p.bytes.drop _ = _
      rw [h.bytes, List.drop_drop, hplace]
    · show (position % 8 + n) % 8 = _
      omega

theorem length_consume_le {k n : Nat} {p' : PendingInput} (h : p.consume n = (.ok k, p')) :
    p'.frameSize = p.frameSize ∧ p'.length ≤ p.length := by
  rw [consume] at h
  split at h
  · cases h
  · cases h
    exact ⟨rfl, Nat.le_trans (Nat.le_of_eq List.length_drop) (Nat.sub_le _ _)⟩

theorem frameSize_le_grow (h : p.frameSize ≤ maxFrameSize) : p.frameSize ≤ p.grow.frameSize :=
  Nat.le_min.2 ⟨h, Nat.le_mul_of_pos_left _ Nat.zero_lt_two⟩

theorem grow_frameSize_le (p : PendingInput) : p.grow.frameSize ≤ maxFrameSize :=
  Nat.min_le_left _ _

theorem resumesAt_grow (h : p.ResumesAt taken position) : p.grow.ResumesAt taken position :=
  ⟨h.bytes, h.bitOffset, h.position_le⟩

theorem length_fill_le (h : p.length ≤ p.frameSize) (offered : Bytes) :
    (p.fill offered).2.length ≤ p.frameSize := by
  rw [length_fill, consumed_fill, room]
  omega

/-- Where not all of the input is taken, there was no room for the rest. -/
theorem length_fill_of_lt (h : p.length ≤ p.frameSize) {offered : Bytes}
    (hlt : (p.fill offered).1 < offered.length) :
    (p.fill offered).2.length = p.frameSize := by
  rw [consumed_fill, room] at hlt
  rw [length_fill, consumed_fill, room]
  omega

end PendingInput

/-! ## One pass -/

/-- What holds of a decoder whose input was taken and used up as `taken` and `position` say. -/
structure Decoder.Accounts (d : Decoder) (taken : Bytes) (position : Nat) : Prop where
  initialFrameSize_le : d.initialFrameSize ≤ PendingInput.maxFrameSize
  frameSize_le : d.input.frameSize ≤ PendingInput.maxFrameSize
  length_le : d.condition = .active → d.input.length ≤ d.input.frameSize
  resumesAt : d.condition = .active → d.input.ResumesAt taken position

/-- How many of the offered bytes a call took. -/
def consumedBytes : Except Fault Output → Nat
  | .ok out => out.consumed
  | .error _ => 0

namespace Decoder

variable {d : Decoder} {taken : Bytes} {position : Nat}

/-- Of a decoder that no longer decodes the account says nothing. -/
theorem Accounts.of_not_active (h : d.Accounts taken position) (hc : d.condition ≠ .active)
    (taken' : Bytes) (position' : Nat) : d.Accounts taken' position' :=
  ⟨h.initialFrameSize_le, h.frameSize_le, h.length_le, fun hactive => absurd hactive hc⟩

/-- **A pass moves on by what it completes**, unless it ends the stream. -/
theorem accounts_runs [Memory] (h : d.Accounts taken position) (hc : d.condition = .active)
    {flush : Bool} {answer : Decoder × Except Fault Status} (hruns : d.Runs flush answer) :
    d.input.frameSize ≤ answer.1.input.frameSize ∧
      answer.1.Accounts taken (position + d.passBits d.resume) := by
  have hresumes := h.resumesAt hc
  have hinitial := h.initialFrameSize_le
  have hframe := h.frameSize_le
  cases hruns with
  | failed => exact ⟨Nat.le_refl _, hinitial, hframe, nofun, nofun⟩
  | suspended hover hn hconsume =>
    obtain ⟨hsame, hle⟩ := PendingInput.length_consume_le hconsume
    have hmoved := PendingInput.resumesAt_consume hresumes
      (passes_passOver (congrArg Prod.snd hover) nofun) hconsume
    rw [← hsame] at hframe
    have hgrow := PendingInput.frameSize_le_grow hframe
    exact ⟨hsame ▸ hgrow, hinitial, PendingInput.grow_frameSize_le _,
      fun _ => Nat.le_trans (Nat.le_trans hle (h.length_le hc)) (hsame ▸ hgrow),
      fun _ => PendingInput.resumesAt_grow hmoved⟩
  | completed hover hn hconsume hending =>
    obtain ⟨hsame, hle⟩ := PendingInput.length_consume_le hconsume
    refine ⟨Nat.le_of_eq hsame.symm, hinitial, hsame ▸ hframe,
      fun _ => Nat.le_trans hle (hsame ▸ h.length_le hc), fun hactive => ?_⟩
    refine PendingInput.resumesAt_consume hresumes
      (passes_passOver (congrArg Prod.snd hover) ?_) hconsume
    rintro rfl
    cases hactive

/-- So does a call, which takes some bytes before. -/
theorem accounts_calls [Memory] (h : d.Accounts taken position) {offered : Option Bytes}
    {answer : Decoder × Except Fault Output} (hcalls : d.Calls offered answer) :
    d.input.frameSize ≤ answer.1.input.frameSize ∧
      answer.1.Accounts (taken ++ (offered.getD []).take (consumedBytes answer.2))
        (position + d.completedBits offered) := by
  have happend (hc : d.condition = .active) :
      Accounts { d with input := (d.input.fill (offered.getD [])).2 }
        (taken ++ (offered.getD []).take (d.input.fill (offered.getD [])).1) position :=
    ⟨h.initialFrameSize_le, h.frameSize_le,
      fun _ => PendingInput.length_fill_le (h.length_le hc) _,
      fun _ => PendingInput.resumesAt_fill (h.resumesAt hc) _⟩
  rw [completedBits]
  cases hcalls with
  | refused hc | ended hc =>
    exact ⟨Nat.le_refl _, h.of_not_active (by rw [hc]; nofun) _ _⟩
  | denied => exact ⟨Nat.le_refl _, h.initialFrameSize_le, h.frameSize_le, nofun, nofun⟩
  | filling hc hready =>
    rw [passStart_of_filling hready]
    exact ⟨Nat.le_refl _, happend hc⟩
  | passed hc hready hruns hroom =>
    rw [passStart_of_ready (h.resumesAt hc).bitOffset_le hc hready hroom]
    exact accounts_runs (happend hc) hc hruns
  | failed hc hready hruns =>
    obtain ⟨hframe, haccounts⟩ := accounts_runs (happend hc) hc hruns
    refine ⟨hframe, haccounts.of_not_active ?_ _ _⟩
    cases hruns
    nofun

/-- **No bit is lost and none is read twice.**  The bits that are still to come are made more by
what a call takes, and less by what it completes. -/
theorem length_unread_calls [Memory] (h : d.Accounts taken position) {offered : Option Bytes}
    {d' : Decoder} {out : Output} (hcalls : d.Calls offered (d', .ok out))
    (hc' : d'.condition = .active) :
    d'.input.unread.length + d.completedBits offered =
      d.input.unread.length + 8 * out.consumed := by
  obtain ⟨-, haccounts⟩ := accounts_calls h hcalls
  have hbefore := (h.resumesAt (hcalls.active hc')).length_unread
  have hafter : d'.input.unread.length + (position + d.completedBits offered) =
      8 * (taken ++ (offered.getD []).take out.consumed).length :=
    (haccounts.resumesAt hc').length_unread
  rw [List.length_append, List.length_take_of_le hcalls.consumed_le] at hafter
  omega

theorem Accounts.calls_decode [Memory] (h : d.Accounts taken position) (offered : Option Bytes) :
    d.Calls offered (d.decode offered).value :=
  Decoder.calls_decode (fun hc => (h.resumesAt hc).bitOffset_le) offered

end Decoder

/-! ## Any number of calls -/

/-- A decoder with the account of its input since it was last started over. -/
structure Ledger where
  decoder : Decoder
  /-- All bytes that were taken. -/
  taken : Bytes
  /-- How many bits the header and the commands have that were completed. -/
  position : Nat

namespace Ledger

/-- A decoder before its first call. -/
def start (frameSize : Nat) (failLevel : Level) : Ledger :=
  ⟨.start frameSize failLevel, [], 0⟩

/-- The ledger behind one more call. -/
def after [Memory] (l : Ledger) : Call → Ledger
  | .decode offered =>
    let (decoder, answer) := (l.decoder.decode offered).value
    ⟨decoder, l.taken ++ (offered.getD []).take (consumedBytes answer),
      l.position + l.decoder.completedBits offered⟩
  | .setFailLevel failLevel => { l with decoder := { l.decoder with failLevel } }
  | .reset => ⟨l.decoder.reset, [], 0⟩

/-- The ledger behind any number of calls. -/
def run [Memory] (l : Ledger) (calls : List Call) : Ledger :=
  calls.foldl after l

/-- What holds of a ledger between two calls. -/
def Balanced (l : Ledger) : Prop :=
  l.decoder.Accounts l.taken l.position

theorem balanced_start {frameSize : Nat} (h : frameSize ≤ PendingInput.maxFrameSize)
    (failLevel : Level) : (start frameSize failLevel).Balanced where
  initialFrameSize_le := h
  frameSize_le := Nat.max_le.2 ⟨by decide, h⟩
  length_le _ := Nat.zero_le _
  resumesAt _ := ⟨List.drop_nil.symm, rfl, Nat.zero_le _⟩

theorem Balanced.after [Memory] {l : Ledger} (h : l.Balanced) (call : Call) :
    (l.after call).Balanced := by
  cases call with
  | decode offered => exact (Decoder.accounts_calls h (h.calls_decode offered)).2
  | setFailLevel failLevel =>
    exact ⟨h.initialFrameSize_le, h.frameSize_le, h.length_le, h.resumesAt⟩
  | reset => exact balanced_start h.initialFrameSize_le _

theorem Balanced.run [Memory] {l : Ledger} (h : l.Balanced) (calls : List Call) :
    (l.run calls).Balanced := by
  induction calls generalizing l with
  | nil => exact h
  | cons call calls ih => exact ih (h.after call)

/-- Only a reset makes the frame size smaller. -/
theorem frameSize_le_after [Memory] {l : Ledger} (h : l.Balanced) {call : Call}
    (hcall : call ≠ .reset) :
    l.decoder.input.frameSize ≤ (l.after call).decoder.input.frameSize := by
  cases call with
  | decode offered => exact (Decoder.accounts_calls h (h.calls_decode offered)).1
  | setFailLevel failLevel => exact Nat.le_refl _
  | reset => exact absurd rfl hcall

theorem position_le_after [Memory] (l : Ledger) {call : Call} (hcall : call ≠ .reset) :
    l.position ≤ (l.after call).position := by
  cases call with
  | decode offered => exact Nat.le_add_right _ _
  | setFailLevel failLevel => exact Nat.le_refl _
  | reset => exact absurd rfl hcall

/-- A ledger is kept of a session. -/
theorem decoder_after [Memory] {l : Ledger} {t : Session} (h : l.decoder = t.decoder)
    (call : Call) :
    (l.after call).decoder = (t.after call).decoder := by
  obtain ⟨decoder, taken, position⟩ := l
  cases h
  cases call <;> rfl

theorem decoder_run [Memory] {l : Ledger} {t : Session} (h : l.decoder = t.decoder)
    (calls : List Call) :
    (l.run calls).decoder = (t.run calls).decoder := by
  induction calls generalizing l t with
  | nil => exact h
  | cons call calls ih => exact ih (decoder_after h call)

end Ledger

/-! ## The machine -/

namespace Machine

variable {m m' : Machine} {d : Decoder}

/-- A call that takes less than it was offered fills the buffer, and runs a pass. -/
theorem full_of_consumed_lt [Memory] (h : m.Represents d)
    (hlength : d.condition = .active → d.input.length ≤ d.input.frameSize) {capacity : Nat}
    {bytes : Bytes} {out : Output}
    (hdecode : m.decode? capacity (some bytes) = some (.ok out, m'))
    (hlt : out.consumed < bytes.length) :
    ∃ w, m.window.append? capacity bytes = some (.ok (out.consumed, w)) ∧
      w.pending.length = w.frameSize ∧
      runPass? { m with window := w } false = some (.ok out.status, m') := by
  have hq : ¬m.registers.quitReceived = true := fun hq => by
    rw [output_of_quit hdecode hq] at hlt
    exact Nat.lt_irrefl _ hlt
  obtain ⟨hactive, w, happend, hconsumed, hw, hran⟩ := h.ran hdecode hq
  have hpending : w.pending = (d.input.fill bytes).2 := hw.pending
  have hfull : w.pending.length = w.frameSize := by
    rw [hpending, PendingInput.length_fill_of_lt (hlength hactive) (hconsumed ▸ hlt)]
    exact (congrArg PendingInput.frameSize hpending).symm
  have hready : w.pending.isReady (some bytes).isNone = true := by
    rw [Option.isNone_some, PendingInput.isReady, Bool.false_or, decide_eq_true_eq]
    exact Nat.le_of_eq hfull.symm
  rw [if_pos hready] at hran
  exact ⟨w, happend, hfull, hran⟩

/-- What a machine makes of its input is what a ledger says. -/
structure KeepsTo [Memory] (m : Machine) (l : Ledger) : Prop where
  /-- While the machine decodes, what is pending is what was taken, from the bit on that lies behind
  the header and the commands that were completed. -/
  resumesAt : m.registers.failed = false → m.registers.quitReceived = false →
    m.window.pending.ResumesAt l.taken l.position
  /-- The bits to come are made more by what a call takes, and less by what it completes. -/
  unread : ∀ capacity offered out m', m.decode? capacity offered = some (.ok out, m') →
    m'.registers.failed = false → m'.registers.quitReceived = false →
      m'.window.pending.unread.length + l.decoder.completedBits offered =
        m.window.pending.unread.length + 8 * out.consumed
  length_le : m.registers.failed = false → m.registers.quitReceived = false →
    m.window.pending.length ≤ m.window.frameSize
  /-- Only a reset makes the frame size smaller, or goes back in the input. -/
  after : ∀ turn, turn.call ≠ .reset → ∃ m', m.take? turn = some m' ∧
    m.window.frameSize ≤ m'.window.frameSize ∧ l.position ≤ (l.after turn.call).position
  /-- A call that takes less than it was offered has filled the buffer, and run a pass. -/
  full : ∀ capacity bytes out m', m.decode? capacity (some bytes) = some (.ok out, m') →
    out.consumed < bytes.length →
      ∃ w, m.window.append? capacity bytes = some (.ok (out.consumed, w)) ∧
        w.pending.length = w.frameSize ∧
        runPass? { m with window := w } false = some (.ok out.status, m')

theorem keepsTo_of_represents [Memory] {l : Ledger} (hm : m.Represents l.decoder)
    (hl : l.Balanced) :
    m.KeepsTo l where
  resumesAt hf hq := by
    rw [hm.pending]
    exact hl.resumesAt ((condition_eq_active_iff hm).2 ⟨hf, hq⟩)
  unread capacity offered out m' hdecode hf hq := by
    obtain ⟨d', hcalls, hm'⟩ := hm.calls hdecode
    rw [hm'.pending, hm.pending]
    exact Decoder.length_unread_calls hl hcalls ((condition_eq_active_iff hm').2 ⟨hf, hq⟩)
  length_le hf hq := by
    have hframe : m.window.frameSize = l.decoder.input.frameSize :=
      congrArg PendingInput.frameSize hm.pending
    rw [hm.pending, hframe]
    exact hl.length_le ((condition_eq_active_iff hm).2 ⟨hf, hq⟩)
  after turn hturn := by
    obtain ⟨m', htake, hm'⟩ := hm.take (t := ⟨l.decoder, [], []⟩) turn
    rw [← Ledger.decoder_after (l := l) rfl] at hm'
    have hframe : m.window.frameSize = l.decoder.input.frameSize :=
      congrArg PendingInput.frameSize hm.pending
    have hframe' : m'.window.frameSize = (l.after turn.call).decoder.input.frameSize :=
      congrArg PendingInput.frameSize hm'.pending
    refine ⟨m', htake, ?_, l.position_le_after hturn⟩
    rw [hframe, hframe']
    exact Ledger.frameSize_le_after hl hturn
  full capacity bytes out m' hdecode hlt := full_of_consumed_lt hm hl.length_le hdecode hlt

/-- **A machine resumes at the bit where it stopped**, whatever a caller does with it and whatever
memory its buffer has; and so does the decoder that it stands for.  The frame size has to be a
number of the machine, which every number up to the largest frame size is. -/
theorem run?_keepsTo [Memory] (frameSize : Nat) (hsize : frameSize ≤ PendingInput.maxFrameSize)
    (failLevel : Level) (turns : List Turn) :
    ∃ m, (start frameSize failLevel).run? turns = some m ∧
      m.Represents ((Ledger.start frameSize failLevel).run (turns.map Turn.call)).decoder ∧
      m.KeepsTo ((Ledger.start frameSize failLevel).run (turns.map Turn.call)) := by
  obtain ⟨m, hrun, hm⟩ := Represents.run (t := Session.start frameSize failLevel)
    (represents_start frameSize failLevel) turns
  have hdecoder := Ledger.decoder_run (l := Ledger.start frameSize failLevel)
    (t := Session.start frameSize failLevel) rfl (turns.map Turn.call)
  rw [← hdecoder] at hm
  exact ⟨m, hrun, hm, keepsTo_of_represents hm ((Ledger.balanced_start hsize failLevel).run _)⟩

/-- The header of a mono stream, whose 488 bits end with a byte, then the bitshift 2 in 7 bits, and
a block with linear prediction that never ends. -/
def endlessBlock : Bytes :=
  [0x61, 0x6A, 0x6B, 0x67, 0x02, 0xFB, 0x12, 0x20, 0x11, 0x99, 0x2A, 0xCA, 0x95, 0x26, 0x8D, 0x46,
    0x92, 0x40, 0xA0, 0x10, 0x0A, 0xBD, 0x06, 0xAD, 0x45, 0xB3, 0x5B, 0x6E, 0x92, 0x08, 0x84, 0x02,
    0x01, 0x00, 0x80, 0xC0, 0x20, 0x30, 0x0A, 0x04, 0x7E, 0x01, 0x00, 0xC0, 0x4F, 0xA0, 0x10, 0x08,
    0x14, 0x02, 0x21, 0x00, 0xB2, 0x58, 0x6E, 0x96, 0x18, 0x04, 0x0A, 0x01, 0x00, 0x6C, 0xF9, 0x50,
    0x3F] ++ List.replicate 100 0xFF

/-- The first call takes 64 bytes and reads the header, the second one goes on from there. -/
def endlessBlockTurns : List Turn :=
  [⟨.decode (some endlessBlock), 0⟩, ⟨.decode (some (endlessBlock.drop 64)), 0⟩]

open scoped Memory

theorem run?_keepsTo_endlessBlock :
    64 ≤ PendingInput.maxFrameSize ∧
      ∃ m, (start 64 .warn).run? endlessBlockTurns = some m ∧
        m.Represents ((Ledger.start 64 .warn).run (endlessBlockTurns.map Turn.call)).decoder ∧
        m.KeepsTo ((Ledger.start 64 .warn).run (endlessBlockTurns.map Turn.call)) :=
  ⟨by decide, run?_keepsTo 64 (by decide) .warn endlessBlockTurns⟩

/-- It has to wait behind the header and the bitshift. -/
example : ((start 64 .warn).run? endlessBlockTurns).map
      (fun m => (m.registers.bitshift, m.registers.failed, m.window.bitOffset)) =
        some (2, false, 495 % 8) ∧
    ((Ledger.start 64 .warn).run (endlessBlockTurns.map Turn.call)).position = 495 := by
  decide +kernel

end Machine

end LosslessAudio
