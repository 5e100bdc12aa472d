import LosslessAudio.Proofs.Operation

/-!
# The machine stays within its bounds

The header fixes how long the rows of a machine are, and every later command relies on it: the
places that a predictor looks back to, the means that are averaged, the end of a block that is
carried over, the samples that a frame picks up.

* `Registers.Fit` — what holds of the registers once the header is read.
* `wellFormed_of_represents` — a machine that stands for a decoder has such registers.
* `run?_wellFormed` — whatever a caller does, the machine gets to such a state, and it has an
  answer to every call.  So none of its accesses misses, and none of the branches that should be
  impossible is ever taken.
-/

set_option autoImplicit false

namespace LosslessAudio

/-- The registers fit the header that was read. -/
structure Registers.Fit (s : Registers) (info : StreamInfo) : Prop where
  info_eq : s.info = some info
  channels : s.channels = info.channels
  /-- There is a row for every channel. -/
  rows : s.rows.length = info.channels
  channels_pos : 1 ≤ info.channels
  channels_le : info.channels ≤ 8
  currentChannel_lt : s.currentChannel < s.channels
  blockSize_pos : 1 ≤ s.blockSize
  blockSize_le : s.blockSize ≤ info.blockSize
  maxBlockSize : info.blockSize ≤ 65535
  contextLength : s.contextLength = max 3 info.maxOrder
  version : s.version = info.version
  meanCount : s.meanCount = info.meanCount
  meanCount_eq : s.meanCount = -1 ↔ s.version = 0
  meanCount_nonneg : s.version ≠ 0 → 0 ≤ s.meanCount.toInt
  /-- A row has room for the context and for the longest block, and for all the means. -/
  row : ∀ row ∈ s.rows, row.contextLength = s.contextLength ∧
    row.samples.length = info.blockSize + s.contextLength ∧
    row.means.length = max 1 s.meanCount.toInt.toNat
  bitshift_le : s.bitshift ≤ 31

/-- Whether the stream has ended or the decoder has failed does not matter to this. -/
theorem Registers.Fit.noted {s : Registers} {info : StreamInfo} (h : s.Fit info)
    (quitReceived failed : Bool) : Registers.Fit { s with quitReceived, failed } info :=
  ⟨h.info_eq, h.channels, h.rows, h.channels_pos, h.channels_le, h.currentChannel_lt,
    h.blockSize_pos, h.blockSize_le, h.maxBlockSize, h.contextLength, h.version, h.meanCount,
    h.meanCount_eq, h.meanCount_nonneg, h.row, h.bitshift_le⟩

namespace Machine

/-- What holds of a machine between two calls. -/
structure WellFormed (m : Machine) : Prop where
  parsed : m.registers.headerParsed = true → ∃ info, m.registers.Fit info
  unparsed : m.registers.headerParsed = false →
    m.registers.info = none ∧ m.registers.rows = []
  window : m.window.start ≤ m.window.data.length

theorem fit_ofStream {s : Stream} (hs : s.Bounded) (failLevel : Level) :
    (Registers.ofStream failLevel s).Fit s.info where
  info_eq := rfl
  channels := rfl
  rows := (List.length_map _).trans hs.channels
  channels_pos := hs.info.channels_pos
  channels_le := hs.info.channels_le
  currentChannel_lt := Nat.lt_of_lt_of_eq s.round.index_lt_length_channels hs.channels
  blockSize_pos := hs.blockSize_pos
  blockSize_le := hs.blockSize_le
  maxBlockSize := hs.info.blockSize_le
  contextLength := rfl
  version := rfl
  meanCount := rfl
  meanCount_eq := by
    show s.info.meanCount = -1 ↔ s.info.version = 0
    rcases hs.info.meanCount with ⟨hversion, hnonneg⟩ | ⟨hversion, hminus⟩
    · refine ⟨fun h => ?_, fun h => absurd h hversion⟩
      rw [h] at hnonneg
      exact absurd hnonneg (by decide)
    · exact ⟨fun _ => hversion, fun _ => hminus⟩
  meanCount_nonneg hversion := by
    rcases hs.info.meanCount with ⟨-, hnonneg⟩ | ⟨hzero, -⟩
    · exact hnonneg
    · exact absurd hzero hversion
  row row hrow := by
    obtain ⟨h, hh, rfl⟩ := List.mem_map.1 hrow
    obtain ⟨hcontext, hblock, hmeans⟩ := hs.histories h hh
    refine ⟨hcontext, ?_, hmeans⟩
    show (h.context ++ h.block).length = _
    rw [List.length_append, hcontext, hblock, Nat.add_comm]
    rfl
  bitshift_le := hs.bitshift_le

theorem wellFormed_of_represents {m : Machine} {d : Decoder} (h : m.Represents d) :
    m.WellFormed := by
  obtain ⟨held, hheld, hregisters⟩ := h.registers
  refine ⟨fun hparsed => ?_, fun hunparsed => ?_, h.inBounds⟩
  · rw [hregisters] at hparsed ⊢
    cases held with
    | none => cases hparsed
    | some t => exact ⟨t.info, (fit_ofStream (hheld.bounded t rfl) d.failLevel).noted _ _⟩
  · rw [hregisters] at hunparsed ⊢
    cases held with
    | none => exact ⟨rfl, rfl⟩
    | some t => cases hunparsed

/-! ## From call to call -/

/-- A pass over commands goes through steps. -/
theorem steps_of_passOver [Memory] {d : Decoder} {s : Stream} (hs : d.stream = some s)
    {flush : Bool} {r : BitReader} {stream : Option Stream}
    {outcome : Except Fault (Stream.PassEnd × BitReader)}
    (h : d.passOver flush r = (stream, outcome)) :
    ∃ s' blocks frames, stream = some s' ∧ s.Steps blocks frames s' := by
  rw [Decoder.passOver, hs] at h
  cases h
  exact ⟨_, _, _, rfl, s.steps_runCommands _ _ _⟩

/-- What a call does to a stream whose header was read is done by commands. -/
theorem steps_of_decode [Memory] {d : Decoder} (h : d.input.bitOffset ≤ 8 * d.input.length)
    {s : Stream} (hs : d.stream = some s) (offered : Option Bytes) :
    ∃ s' blocks frames, (d.decode offered).value.1.stream = some s' ∧
      s.Steps blocks frames s' := by
  have hcalls := Decoder.calls_decode (fun _ => h) offered
  generalize (d.decode offered).value = answer at hcalls ⊢
  cases hcalls with
  | refused | ended | filling | denied => exact ⟨s, [], [], hs, .refl⟩
  | passed _ _ hruns =>
    cases hruns with
    | suspended hover | completed hover => exact steps_of_passOver hs hover
  | failed _ _ hruns =>
    cases hruns with
    | failed hover => exact steps_of_passOver hs hover

theorem blockSize_of_steps {s s' : Stream} {blocks : List Block} {frames : List Frame}
    (h : s.Steps blocks frames s') : s'.blockSize ≤ s.blockSize := by
  induction h with
  | refl => exact Nat.le_refl _
  | step _ hstep ih =>
    refine Nat.le_trans ?_ ih
    cases hstep with
    | blockSize n hpos hle => exact hle
    | audio | verbatim | bitshift | quit => exact Nat.le_refl _

/-- The blocks of a machine are as long as those of its stream. -/
theorem blockSize_of_stream {m : Machine} {d : Decoder} (h : m.Represents d) {s : Stream}
    (hs : d.stream = some s) : m.registers.blockSize = s.blockSize := by
  obtain ⟨held, hheld, hregisters⟩ := h.registers
  have hblank : held.map Stream.blank = some s.blank := by rw [hheld.blank, hs, Option.map_some]
  obtain ⟨t, rfl, ht⟩ := Option.map_eq_some_iff.1 hblank
  have hsize : t.blank.blockSize = s.blank.blockSize := congrArg Stream.blockSize ht
  rw [hregisters]
  exact hsize

/-- Until it is reset, a machine keeps its header, and blocks do not become longer. -/
theorem Represents.run_parsed [Memory] {m : Machine} {t : Session} (h : m.Represents t.decoder)
    (hparsed : m.registers.headerParsed = true) {turns : List Turn}
    (hturns : ∀ turn ∈ turns, turn.call ≠ .reset) {m' : Machine}
    (hrun : m.run? turns = some m') :
    m'.registers.headerParsed = true ∧ m'.registers.blockSize ≤ m.registers.blockSize := by
  induction turns generalizing m t with
  | nil => cases hrun; exact ⟨hparsed, Nat.le_refl _⟩
  | cons turn turns ih =>
    obtain ⟨m₁, htake, hm₁⟩ := h.take turn
    obtain ⟨s, hs⟩ := Option.isSome_iff_exists.1 (headerParsed_eq h ▸ hparsed)
    have hrest : m₁.run? turns = some m' := by
      have hcons : m.run? (turn :: turns) = m₁.run? turns := Access.bind_of_eq htake rfl
      rw [← hcons, hrun]
    have hstep : ∃ s', (t.after turn.call).decoder.stream = some s' ∧
        s'.blockSize ≤ s.blockSize := by
      obtain ⟨call, capacity⟩ := turn
      cases call with
      | decode offered =>
        obtain ⟨s', blocks, frames, hs', hsteps⟩ := steps_of_decode h.bitOffset_le hs offered
        exact ⟨s', hs', blockSize_of_steps hsteps⟩
      | setFailLevel failLevel => exact ⟨s, hs, Nat.le_refl _⟩
      | reset => exact absurd rfl (hturns _ List.mem_cons_self)
    obtain ⟨s', hs', hle⟩ := hstep
    have hparsed₁ : m₁.registers.headerParsed = true := by
      rw [headerParsed_eq hm₁, hs', Option.isSome_some]
    obtain ⟨hparsed', hle'⟩ := ih hm₁ hparsed₁
      (fun turn hturn => hturns turn (List.mem_cons_of_mem _ hturn)) hrest
    refine ⟨hparsed', Nat.le_trans hle' ?_⟩
    rw [blockSize_of_stream hm₁ hs', blockSize_of_stream h hs]
    exact hle

/-- **The machine never breaks down.**  Whatever a caller does with it and whatever memory its
buffer has, it gets to a state within its bounds.  From there it has an answer to every call, which
is that of the decoder; and until it is reset, blocks do not become longer once the header is read.
What the codes of the format are shifted by stays below the width of a number, too. -/
theorem run?_wellFormed [Memory] (frameSize : Nat) (failLevel : Level) (turns : List Turn) :
    ∃ m, (start frameSize failLevel).run? turns = some m ∧ m.WellFormed ∧
      (∀ capacity offered, ∃ m', m.decode? capacity offered =
        some ((((Session.start frameSize failLevel).run
          (turns.map Turn.call)).decoder.decode offered).value.2, m')) ∧
      (m.registers.headerParsed = true → ∀ later, (∀ turn ∈ later, turn.call ≠ .reset) →
        ∃ m', m.run? later = some m' ∧ m'.registers.headerParsed = true ∧
          m'.registers.blockSize ≤ m.registers.blockSize) ∧
      ∀ (r : BitReader) (k : Nat), (∃ x, r.rice k = .ok x) → k < 32 := by
  obtain ⟨m, hrun, hm⟩ := Represents.run (t := Session.start frameSize failLevel)
    (represents_start frameSize failLevel) turns
  refine ⟨m, hrun, wellFormed_of_represents hm, fun capacity offered => ?_,
    fun hparsed later hlater => ?_, fun r k hr => ?_⟩
  · obtain ⟨m', hdecode, -⟩ := hm.decode capacity offered
    exact ⟨m', hdecode⟩
  · obtain ⟨m', hlaterRun, -⟩ := hm.run later
    exact ⟨m', hlaterRun, hm.run_parsed hparsed hlater hlaterRun⟩
  · obtain ⟨x, hx⟩ := hr
    rw [BitReader.rice] at hx
    split at hx
    · cases hx
    · rename_i hk
      exact Nat.lt_succ_of_le (Nat.not_lt.1 hk)

end Machine

end LosslessAudio
