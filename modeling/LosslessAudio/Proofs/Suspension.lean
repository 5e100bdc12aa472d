import LosslessAudio.Proofs.Resumption

/-!
# A command that has to wait leaves no trace

The machine overwrites its rows in place, and a command that runs out of bits has often done so: it
has taken the offset off the context and filled a part of the block.  It will be carried out again
from its first bit, so none of this may show.

* `Completes` — commands that were completed, one behind the other.
* `completes_of_suspended` — a pass that has to wait has completed some commands, and nothing is
  left of the one behind them but samples of the block that it will overwrite.
* `run?_waits` — this holds of every call that asks for more input, and the next pass resumes at
  the first bit of that command.
-/

set_option autoImplicit false

namespace LosslessAudio

/-- The row with other samples behind its context. -/
def Row.replaceBlock (row : Row) (block : List Int32) : Row :=
  { row with samples := row.context ++ block }

/-- The registers with other samples behind the context of the channel whose block comes next. -/
def Registers.replaceBlock (s : Registers) (block : List Int32) : Registers :=
  { s with rows := s.rows.modify s.currentChannel (·.replaceBlock block) }

namespace Routine

open Registers

/-- Commands that were completed one behind the other, none of which ended the pass. -/
inductive Completes [Memory] : Registers → BitReader → Registers → BitReader → Prop
  | refl {s : Registers} {r : BitReader} : Completes s r s r
  | step {s s' s'' : Registers} {r r' r'' : BitReader} (hlen : Command.minimalBits ≤ r.available)
      (h : (carryOut r).on s = some (.ok (.silent, r'), s')) (h' : Completes s' r' s'' r'') :
      Completes s r s'' r''

/-- The next command has begun, and the bits run out within it. -/
def Overreads [Memory] (s : Registers) (r : BitReader) : Prop :=
  Command.minimalBits ≤ r.available ∧
    ∃ fault s', (carryOut r).on s = some (.error fault, s') ∧ fault.isOverread = true

variable {failLevel : Level} {t : Stream}

theorem replaceBlock_row (h : ChannelHistory) (block : List Int32) :
    h.row.replaceBlock block = ChannelHistory.row { h with block } := by
  rw [Row.replaceBlock, h.context_row]
  rfl

theorem rows_ofStream (failLevel : Level) (t : Stream) (h : ChannelHistory) :
    (ofStream failLevel (t.withCurrent h)).rows = t.round.done.map ChannelHistory.row ++
      h.row :: t.round.waiting.map ChannelHistory.row :=
  List.map_append

theorem replaceBlock_ofStream (failLevel : Level) (t : Stream) (block : List Int32) :
    (ofStream failLevel t).replaceBlock block =
      ofStream failLevel (t.withCurrent { t.round.current with block }) := by
  have hrows := rows_ofStream failLevel t t.round.current
  have hlength : (t.round.done.map ChannelHistory.row).length =
      (ofStream failLevel t).currentChannel := List.length_map _
  rw [withCurrent_self] at hrows
  rw [replaceBlock, hrows, List.modify_eq_take_drop, List.take_left' hlength,
    List.drop_left' hlength, List.modifyHead_cons, replaceBlock_row, ← rows_ofStream failLevel t]
  rfl

/-- **A pass that has to wait** has completed some commands, and the bits run out in the next. -/
theorem completes_of_suspended [Memory] {t : Stream} (ht : t.Bounded) {r r' : BitReader}
    {s' : Registers}
    (h : runCommands false r (ofStream failLevel t) = some (.ok (.suspended, r'), s')) :
    ∃ s₁ block, Completes (ofStream failLevel t) r s₁ r' ∧ Overreads s₁ r' ∧
      s' = s₁.replaceBlock block := by
  cases hnext : t.next? r with
  | none =>
    by_cases hlen : r.available < Command.minimalBits
    · rw [runCommands_of_short hlen] at h
      cases h
    · have hlen := Nat.le_of_not_lt hlen
      obtain ⟨fault, hfault⟩ := Stream.exists_fault_of_stuck hnext hlen
      obtain ⟨block, -, hcarry⟩ := on_carryOut_of_error failLevel ht hfault
      rw [runCommands_of_error hlen hcarry] at h
      cases hf : fault.isOverread with
      | false =>
        rw [if_pos hf] at h
        cases h
      | true =>
        rw [if_neg (by rw [hf]; nofun), if_pos rfl] at h
        cases h
        exact ⟨_, block, .refl, ⟨hlen, fault, _, hcarry, hf⟩, (replaceBlock_ofStream _ _ _).symm⟩
  | some x =>
    obtain ⟨⟨e, t'⟩, r₁⟩ := x
    have hless := Stream.available_lt_of_next? hnext
    have ht' := bounded_of_next? ht hnext
    obtain ⟨hlen, hcarry⟩ := Stream.next?_eq_some.1 hnext
    have hmachine := on_carryOut_of_ok failLevel ht hcarry
    rw [runCommands_of_ok hlen hmachine hless] at h
    cases e with
    | silent =>
      obtain ⟨s₁, block, hcompletes, hoverreads, hs⟩ := completes_of_suspended ht' h
      exact ⟨s₁, block, .step hlen hmachine hcompletes, hoverreads, hs⟩
    | pause | frame f | quit => cases h
termination_by r.available

/-- A header that has to wait changes nothing. -/
theorem eq_of_readHeader [Memory] {s s' : Registers} {flush : Bool} {r r' : BitReader}
    (h : (readHeader flush r).on s = some (.ok (.suspended, r'), s')) :
    r' = r ∧ s' = s ∧ ∃ fault, (StreamInfo.read s.failLevel r).outcome = .error fault ∧
      fault.isOverread = true := by
  cases hread : (StreamInfo.read s.failLevel r).outcome with
  | error fault =>
    rw [on_readHeader_of_error hread, endAtFault] at h
    split at h
    · rename_i hwait
      cases h
      exact ⟨rfl, rfl, fault, rfl, (Bool.and_eq_true_iff.1 hwait).1⟩
    · cases h
  | ok x =>
    obtain ⟨info, r₁⟩ := x
    rw [on_readHeader_of_ok hread] at h
    cases hrows : createRows info info.channels with
    | error fault =>
      have hbegin : (begin info).on s = some (.error fault, s) :=
        on_bind_of_error (on_lift hrows s)
      rw [on_bind_of_error hbegin] at h
      cases h
    | ok rows =>
      have hbegin : ∃ s₁, (begin info).on s = some (.ok (), s₁) :=
        ⟨_, on_bind_of_ok (on_lift hrows s) rfl⟩
      obtain ⟨s₁, hbegin⟩ := hbegin
      rw [on_bind_of_ok hbegin rfl] at h
      cases h

end Routine

theorem PendingInput.bitOffset_of_consume {p p' : PendingInput} {position k : Nat}
    (h : p.consume position = (.ok k, p')) : p'.bitOffset = position % 8 := by
  rw [consume] at h
  split at h <;> cases h
  rfl

/-! ## Calls -/

namespace Machine

open Routine

variable {m m' : Machine} {d : Decoder}

/-- What a pass that has to wait does to the registers, and where the next one resumes. -/
theorem suspended_of_runPass? [Memory] (h : m.Represents d) (hc : d.condition = .active)
    (hrun : m.runPass? false = some (.ok .needMoreInput, m')) :
    ∃ r r', m.window.reader? = some r ∧ r.position < 8 ∧
      Routine.pass false r m.registers = some (.ok (.suspended, r'), m'.registers) ∧
      m'.window.reader? = some ⟨r'.position % 8, r'.rest⟩ := by
  obtain ⟨hreader, held, -, hpass⟩ := h.pass hc false
  have hruns := Decoder.runs_runPass h.bitOffset_le false
  generalize (d.runPass false).value = answer at hruns
  cases hruns with
  | failed hover =>
    rw [hover] at hpass
    rw [runPass?_of_error hreader hpass h.inBounds] at hrun
    cases hrun
  | suspended hover hn hconsume =>
    rw [hover] at hpass
    obtain ⟨w, hw, hin, hpending, hunread, hoffset, -⟩ := h.consume hn hconsume
    rw [runPass?_of_ok hreader hpass hw] at hrun
    cases hrun
    have hresume : w.pending.reader = .ok ⟨_, _⟩ :=
      PendingInput.reader_eq (by rw [hpending]; exact hoffset)
    rw [hpending, PendingInput.bitOffset_of_consume hconsume, hunread] at hresume
    exact ⟨d.resume, _, hreader, h.bitOffset_lt, hpass, Window.reader?_eq hin (hpending ▸ hresume)⟩
  | completed hover hn hconsume hending =>
    rw [hover] at hpass
    obtain ⟨w, hw, -⟩ := h.consume hn hconsume
    rw [runPass?_of_ok hreader hpass hw] at hrun
    rename_i ending _ _ _ _
    cases ending with
    | suspended => exact absurd rfl hending
    | paused | frame f | quit => cases hrun

/-- How a call ends that asks for more input, once its bytes are in the window `w`. -/
inductive Waits [Memory] (m : Machine) (w : Window) (m' : Machine) : Prop
  /-- There is not enough input for a pass. -/
  | unfilled (hlt : w.pending.length < w.frameSize) (heq : m' = { m with window := w })
  /-- The bits run out within the header. -/
  | header (hle : w.frameSize ≤ w.pending.length) (hparsed : m.registers.headerParsed = false)
      {r : BitReader} (hr : w.reader? = some r) {fault : Fault}
      (hread : (StreamInfo.read m.registers.failLevel r).outcome = .error fault)
      (hover : fault.isOverread = true) (heq : m'.registers = m.registers)
      (hr' : m'.window.reader? = some r)
  /-- The bits run out within a command. -/
  | command (hle : w.frameSize ≤ w.pending.length) (hparsed : m.registers.headerParsed = true)
      {r r' : BitReader} {s : Registers} {block : List Int32} (hr : w.reader? = some r)
      (hcompletes : Completes m.registers r s r') (hover : Overreads s r')
      (heq : m'.registers = s.replaceBlock block)
      (hr' : m'.window.reader? = some ⟨r'.position % 8, r'.rest⟩)

theorem waits_of_runPass? [Memory] (h : m.Represents d) (hc : d.condition = .active)
    (hle : m.window.frameSize ≤ m.window.pending.length)
    (hrun : m.runPass? false = some (.ok .needMoreInput, m')) : m.Waits m.window m' := by
  obtain ⟨r, r', hr, hlt, hpass, hr'⟩ := suspended_of_runPass? h hc hrun
  obtain ⟨held, hheld, hregisters⟩ := h.registers
  rw [hc] at hregisters
  cases held with
  | none =>
    have hparsed : m.registers.headerParsed = false := by rw [hregisters]; rfl
    rw [Routine.pass, if_neg (by rw [hparsed]; nofun)] at hpass
    obtain ⟨rfl, heq, fault, hread, hover⟩ := eq_of_readHeader hpass
    rw [Nat.mod_eq_of_lt hlt] at hr'
    exact .header hle hparsed hr hread hover heq hr'
  | some t =>
    have hparsed : m.registers.headerParsed = true := by rw [hregisters]; rfl
    rw [Routine.pass, if_pos hparsed, hregisters] at hpass
    obtain ⟨s, block, hcompletes, hover, heq⟩ :=
      completes_of_suspended (hheld.bounded t rfl) hpass
    refine .command hle hparsed hr ?_ hover heq hr'
    rw [hregisters]
    exact hcompletes

/-- **A call that asks for more input** has not done more than the commands that are complete. -/
theorem Represents.waits [Memory] (h : m.Represents d) {capacity consumed : Nat} {bytes : Bytes}
    (hdecode : m.decode? capacity (some bytes) = some (.ok ⟨consumed, .needMoreInput⟩, m')) :
    ∃ w, m.window.append? capacity bytes = some (.ok (consumed, w)) ∧ m.Waits w m' := by
  have hq : ¬m.registers.quitReceived = true := fun hq => by
    cases output_of_quit hdecode hq
  obtain ⟨hactive, w, happend, -, hw, hran⟩ := h.ran hdecode hq
  refine ⟨w, happend, ?_⟩
  by_cases hle : w.frameSize ≤ w.pending.length
  · have hready : w.pending.isReady (some bytes).isNone = true := decide_eq_true hle
    rw [if_pos hready] at hran
    cases waits_of_runPass? hw hactive hle hran with
    | unfilled hlt => exact absurd hle (Nat.not_le.2 hlt)
    | header hle hparsed hr hread hover heq hr' =>
      exact .header hle hparsed hr hread hover heq hr'
    | command hle hparsed hr hcompletes hover heq hr' =>
      exact .command hle hparsed hr hcompletes hover heq hr'
  · have hready : ¬w.pending.isReady (some bytes).isNone = true := by
      rw [Option.isNone_some, PendingInput.isReady, Bool.false_or, decide_eq_true_eq]
      exact hle
    rw [if_neg hready] at hran
    exact .unfilled (Nat.not_le.1 hle) hran.2

/-- **A command that has to wait leaves no trace.**  Whatever a caller did before, a call that asks
for more input has done no more than the commands that are complete: all registers are as these
leave them but for the block that will be overwritten, and the next pass resumes at the first bit of
the command that is not complete.  A header that is not complete leaves everything as it is. -/
theorem run?_waits [Memory] (frameSize : Nat) (failLevel : Level) (turns : List Turn) :
    ∃ m, (start frameSize failLevel).run? turns = some m ∧
      m.Represents ((Session.start frameSize failLevel).run (turns.map Turn.call)).decoder ∧
      ∀ capacity bytes consumed m',
        m.decode? capacity (some bytes) = some (.ok ⟨consumed, .needMoreInput⟩, m') →
          ∃ w, m.window.append? capacity bytes = some (.ok (consumed, w)) ∧ m.Waits w m' := by
  obtain ⟨m, hrun, hm⟩ := Represents.run (t := Session.start frameSize failLevel)
    (represents_start frameSize failLevel) turns
  exact ⟨m, hrun, hm, fun capacity bytes consumed m' hdecode => hm.waits hdecode⟩

open scoped Memory in
/-- The bits run out within the block of this stream, behind its bitshift. -/
theorem run?_waits_endlessBlock :
    ∃ m m', (start 64 .warn).run? (endlessBlockTurns.take 1) = some m ∧
      m.decode? 0 (some (endlessBlock.drop 64)) = some (.ok ⟨61, .needMoreInput⟩, m') ∧
      ∃ w, m.window.append? 0 (endlessBlock.drop 64) = some (.ok (61, w)) ∧ m.Waits w m' := by
  obtain ⟨m, hrun, -, hwaits⟩ := run?_waits 64 .warn (endlessBlockTurns.take 1)
  have hanswer : ((start 64 .warn).run? (endlessBlockTurns.take 1)).bind (fun m =>
      (m.decode? 0 (some (endlessBlock.drop 64))).map (·.1.toOption)) =
        some (some ⟨61, .needMoreInput⟩) := by decide +kernel
  rw [hrun, Option.bind_some] at hanswer
  obtain ⟨⟨answer, m'⟩, hdecode, hok⟩ := Option.map_eq_some_iff.1 hanswer
  cases answer with
  | error fault => cases hok
  | ok out =>
    cases hok
    exact ⟨m, m', hrun, hdecode, hwaits _ _ _ _ hdecode⟩

end Machine

end LosslessAudio
