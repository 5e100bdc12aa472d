import LosslessAudio.Proofs.Extent
import LosslessAudio.Proofs.Findings
import LosslessAudio.Proofs.Refusal
import LosslessAudio.Proofs.Resumption
import Mathlib.Data.List.Induction

/-!
# How large the frame size gets

The frame size is doubled when a pass over a full buffer has to wait.  This is needed if a single
unit of the stream, the header or a command, does not fit into the buffer.  But a pass also has to
wait if it has completed many commands and the buffer ends within the next one, however short all of
them are.  So what bounds the frame size are not the units of a stream but its *stretches*: the
commands that follow one another without ending a pass, together with the one that ends it.

* `unitsOf` — the units of a stream.  The units that lie ahead of a decoder are always the last of
  them (`Decoder.Sees`).
* `Decoder.Starves` — the calls that double the frame size, and `Decoder.demand_of_starves`, which
  says what the buffer was too small for.
* `frameSize_of_run` — the two bounds on the frame size, and which calls change it.
-/

set_option autoImplicit false

namespace LosslessAudio

/-! ## Units and stretches -/

/-- A part of a stream that is parsed as a whole. -/
structure ParseUnit where
  bits : Nat
  /-- Whether a pass over the stream ends behind it. -/
  endsPass : Bool
  deriving DecidableEq, Repr

/-- The number of bits in the longest unit. -/
def longestUnit : List ParseUnit → Nat
  | [] => 0
  | u :: units => max u.bits (longestUnit units)

/-- The number of bits up to the end of the first unit that ends a pass. -/
def stretch : List ParseUnit → Nat
  | [] => 0
  | u :: units => u.bits + if u.endsPass then 0 else stretch units

/-- The number of bits in the longest stretch. -/
def longestStretch : List ParseUnit → Nat
  | [] => 0
  | u :: units => max (stretch (u :: units)) (longestStretch units)

/-- How many bytes hold that many bits, wherever in a byte they begin. -/
def roomFor (bits : Nat) : Nat :=
  (bits + 7) / 8 + 1

theorem stretch_le_longestStretch (units : List ParseUnit) :
    stretch units ≤ longestStretch units := by
  cases units with
  | nil => exact Nat.le_refl 0
  | cons u units => exact Nat.le_max_left _ _

theorem longestUnit_le_of_suffix {units all : List ParseUnit} (h : units <:+ all) :
    longestUnit units ≤ longestUnit all := by
  obtain ⟨front, rfl⟩ := h
  induction front with
  | nil => exact Nat.le_refl _
  | cons u front ih => exact Nat.le_trans ih (Nat.le_max_right _ _)

theorem longestStretch_le_of_suffix {units all : List ParseUnit} (h : units <:+ all) :
    longestStretch units ≤ longestStretch all := by
  obtain ⟨front, rfl⟩ := h
  induction front with
  | nil => exact Nat.le_refl _
  | cons u front ih => exact Nat.le_trans ih (Nat.le_max_right _ _)

/-- The commands at a reader, up to the end of the stream.  Bits in which there is no command are a
unit as well. -/
def Stream.units [Memory] (s : Stream) (r : BitReader) : List ParseUnit :=
  match _h : s.next? r with
  | none => [⟨r.available, true⟩]
  | some ((e, s'), r') =>
    ⟨r.available - r'.available, decide (e ≠ .silent)⟩ :: if e = .quit then [] else s'.units r'
termination_by r.available
decreasing_by exact available_lt_of_next? ‹_›

/-- The header at a reader, read by a lax reader, and the commands behind it. -/
def StreamInfo.units [Memory] (r : BitReader) : List ParseUnit :=
  match (StreamInfo.read .error r).outcome with
  | .error _ => [⟨r.available, true⟩]
  | .ok (info, r') => ⟨r.available - r'.available, true⟩ ::
    match Stream.start info with
    | .error _ => []
    | .ok s => s.units r'

/-- The units of a stream. -/
def unitsOf [Memory] (bytes : Bytes) : List ParseUnit :=
  StreamInfo.units (.ofBytes bytes)

/-- What a decoder that stands at `r` still has to parse. -/
def Decoder.units [Memory] (d : Decoder) (r : BitReader) : List ParseUnit :=
  match d.stream with
  | none => StreamInfo.units r
  | some s => s.units r

/-! ## Units within a window -/

theorem BitReader.available_within (r : BitReader) (p : Nat) (tail : List Bool) :
    (r.within p tail).available = r.available + tail.length :=
  List.length_append

/-- If there is no read within a front of the bits, it takes more bits than there are in it. -/
theorem SelfDelimiting.available_lt_of_error {ε α : Type} [Cause ε]
    {read : BitReader → Except ε (α × BitReader)} (hread : SelfDelimiting read) {r r' : BitReader}
    {e : ε} {a : α} {p : Nat} {tail : List Bool} (hcut : read r = .error e)
    (h : read (r.within p tail) = .ok (a, r')) :
    r.available < (r.within p tail).available - r'.available := by
  obtain ⟨n, hn, hsame⟩ := hread.ok_of_take_eq h
  have havailable := hn.available_eq
  by_contra hge
  have hle : n ≤ r.rest.length := by
    show n ≤ r.available
    omega
  have htake : r.rest.take n = (r.within p tail).rest.take n :=
    (List.take_append_of_le_length hle).symm
  rw [hsame r htake] at hcut
  cases hcut

namespace Stream

variable {s s' : Stream} {r r' : BitReader}

theorem units_of_stuck [Memory] (h : s.next? r = none) : s.units r = [⟨r.available, true⟩] := by
  rw [units]
  split
  · rfl
  · rename_i h'
    rw [h] at h'
    cases h'

theorem units_of_next? [Memory] {e : Command.Effect} (h : s.next? r = some ((e, s'), r')) :
    s.units r = ⟨r.available - r'.available, decide (e ≠ .silent)⟩ ::
      if e = .quit then [] else s'.units r' := by
  rw [units]
  split
  · rename_i h'
    rw [h] at h'
    cases h'
  · rename_i h'
    rw [h] at h'
    cases h'
    rfl

/-- Where a command is cut short by the end of the window, the unit there has all bits that are
left in the window. -/
theorem exists_unit_of_stuck [Memory] (h : s.next? r = none)
    (hlen : Command.minimalBits ≤ r.available) (p : Nat) (tail : List Bool) :
    ∃ cut rest, s.units (r.within p tail) = cut :: rest ∧ r.available ≤ cut.bits := by
  cases hwhole : s.next? (r.within p tail) with
  | none =>
    refine ⟨_, _, units_of_stuck hwhole, ?_⟩
    rw [BitReader.available_within]
    exact Nat.le_add_right _ _
  | some x =>
    obtain ⟨⟨e, s'⟩, r'⟩ := x
    obtain ⟨fault, hfault⟩ := exists_fault_of_stuck h hlen
    exact ⟨_, _, units_of_next? hwhole, Nat.le_of_lt
      (s.selfDelimiting_carryOut.available_lt_of_error hfault (next?_eq_some.1 hwhole).2)⟩

end Stream

/-- What a pass that ends with `units'` ahead has done to the `units` that were ahead: it has passed
some of them, and if it has to wait, then for the rest of the next one. -/
structure PassesUnits (suspended : Prop) (units units' : List ParseUnit) (completed left : Nat) :
    Prop where
  suffix : units' <:+ units
  waits : suspended → ∃ cut rest, units' = cut :: rest ∧ left ≤ cut.bits ∧
    stretch units = completed + stretch units'

namespace Stream

/-- **A pass over the commands in a window** leaves some of the commands of the whole stream. -/
theorem moves_runCommands [Memory] {s s' : Stream} {failLevel : Level} {flush : Bool}
    {r r' : BitReader}
    {ending : PassEnd} (h : (s.runCommands failLevel flush r).value = ⟨s', .ok (ending, r')⟩)
    (hquit : ending ≠ .quit) (p : Nat) (tail : List Bool) :
    PassesUnits (ending = .suspended) (s.units (r.within p tail))
      (s'.units (r'.within (p + s.bitsAhead r) tail)) (s.bitsAhead r) r'.available := by
  cases hnext : s.next? r with
  | none =>
    have hstay : s' = s ∧ r' = r ∧ (ending = .suspended → Command.minimalBits ≤ r.available) := by
      cases flush with
      | true =>
        have houtcome := congrArg Pass.outcome h
        exact absurd ((runCommands_of_stuck hnext failLevel).2 houtcome).1 hquit
      | false =>
        by_cases hlen : r.available < Command.minimalBits
        · rw [value_runCommands_of_short hlen, if_neg Bool.false_ne_true] at h
          cases h
          exact ⟨rfl, rfl, nofun⟩
        · have hlen := Nat.le_of_not_lt hlen
          obtain ⟨fault, hfault⟩ := exists_fault_of_stuck hnext hlen
          rw [value_runCommands_of_error hlen hfault, if_pos rfl] at h
          split at h <;> cases h
          exact ⟨rfl, rfl, fun _ => hlen⟩
    obtain ⟨rfl, rfl, hlen⟩ := hstay
    rw [bitsAhead_of_stuck hnext]
    refine ⟨List.suffix_refl _, fun hsuspended => ?_⟩
    obtain ⟨cut, rest, hunits, hle⟩ := exists_unit_of_stuck hnext (hlen hsuspended) p tail
    exact ⟨cut, rest, hunits, hle, (Nat.zero_add _).symm⟩
  | some x =>
    obtain ⟨⟨e, s₁⟩, r₁⟩ := x
    have hless := available_lt_of_next? hnext
    obtain ⟨n, -, hn, hwithin⟩ := next?_within hnext
    have havailable := hn.available_eq
    have hbits : r.available - r₁.available = n := by omega
    have hbits' : (r.within p tail).available - (r₁.within (p + n) tail).available = n := by
      rw [BitReader.available_within, BitReader.available_within]
      omega
    have hunits := units_of_next? (hwithin p tail)
    rw [hbits'] at hunits
    rw [value_runCommands_of_next? hnext] at h
    rw [hunits, bitsAhead_of_next? hnext, hbits]
    cases e with
    | silent =>
      obtain ⟨hsuffix, hwaits⟩ := moves_runCommands h hquit (p + n) tail
      rw [if_pos rfl, if_neg nofun, ← Nat.add_assoc]
      refine ⟨hsuffix.trans (List.suffix_cons _ _), fun hsuspended => ?_⟩
      obtain ⟨cut, rest, hcut, hle, hstretch⟩ := hwaits hsuspended
      refine ⟨cut, rest, hcut, hle, ?_⟩
      show n + stretch (s₁.units (r₁.within (p + n) tail)) = _
      rw [hstretch, Nat.add_assoc, Nat.add_assoc]
    | quit =>
      cases h
      exact absurd rfl hquit
    | pause | frame f =>
      cases h
      rw [if_neg nofun, if_neg nofun, Nat.add_zero]
      exact ⟨List.suffix_cons _ _, nofun⟩
termination_by r.available

end Stream

/-! ## Units within a window: the header -/

namespace StreamInfo

variable {r r' : BitReader} {info : StreamInfo} {failLevel : Level}

/-- What any reader reads, a lax one reads as well. -/
theorem outcome_read_lax (h : (read failLevel r).outcome = .ok (info, r')) :
    (read .error r).outcome = .ok (info, r') := by
  rw [Checked.outcome] at h ⊢
  cases weighed_read r with
  | plain a log hx =>
    rw [hx] at h ⊢
    exact h
  | finds f a b before after hstrict hlax hbefore hafter hfound =>
    by_cases hlevel : Level.warn ≤ failLevel
    · rw [hstrict failLevel hlevel, hfound.strict] at h
      cases h
    · rw [hlax failLevel hlevel] at h
      rw [hlax .error (by decide)]
      exact h

/-- If a reader runs out of bits, so does a lax one. -/
theorem exists_fault_lax {fault : Fault} (h : (read failLevel r).outcome = .error fault)
    (hover : fault.isOverread = true) : ∃ fault', (read .error r).outcome = .error fault' := by
  rw [Checked.outcome] at h ⊢
  cases weighed_read r with
  | plain a log hx =>
    rw [hx] at h ⊢
    exact ⟨fault, h⟩
  | finds f a b before after hstrict hlax hbefore hafter hfound =>
    by_cases hlevel : Level.warn ≤ failLevel
    · rw [hstrict failLevel hlevel, hfound.strict] at h
      cases h
      cases f <;> cases hover
    · rw [hlax failLevel hlevel] at h
      exact ⟨fault, by rw [hlax .error (by decide)]; exact h⟩

theorem units_of_ok [Memory] (h : (read .error r).outcome = .ok (info, r')) :
    units r = ⟨r.available - r'.available, true⟩ ::
      match Stream.start info with
      | .error _ => []
      | .ok s => s.units r' := by
  rw [units, h]

/-- A header that is cut short by the end of the window has all bits of the window. -/
theorem exists_unit_of_cut [Memory] {fault : Fault} (h : (read failLevel r).outcome = .error fault)
    (hover : fault.isOverread = true) (p : Nat) (tail : List Bool) :
    ∃ cut rest, units (r.within p tail) = cut :: rest ∧ r.available ≤ cut.bits := by
  obtain ⟨fault', hcut⟩ := exists_fault_lax h hover
  cases hwhole : (read .error (r.within p tail)).outcome with
  | error fault =>
    refine ⟨⟨(r.within p tail).available, true⟩, [], by rw [units, hwhole], ?_⟩
    rw [BitReader.available_within]
    exact Nat.le_add_right _ _
  | ok x =>
    obtain ⟨info, r'⟩ := x
    exact ⟨_, _, units_of_ok hwhole, Nat.le_of_lt
      ((selfDelimiting_read .error).available_lt_of_error hcut hwhole)⟩

end StreamInfo

namespace Decoder

variable {d : Decoder}

/-- So does a pass over the header. -/
theorem moves_passOver [Memory] {flush : Bool} {r r' : BitReader} {stream : Option Stream}
    {ending : Stream.PassEnd} (h : d.passOver flush r = (stream, .ok (ending, r')))
    (hquit : ending ≠ .quit) (p : Nat) (tail : List Bool) :
    PassesUnits (ending = .suspended) (d.units (r.within p tail))
      (units { d with stream } (r'.within (p + d.passBits r) tail)) (d.passBits r)
      r'.available := by
  rw [passBits]
  cases hd : d.stream with
  | some s =>
    rw [passOver, hd] at h
    obtain ⟨rfl, houtcome⟩ := Prod.mk.inj h
    have hpass : (s.runCommands d.failLevel flush r).value =
        ⟨(s.runCommands d.failLevel flush r).value.stream, .ok (ending, r')⟩ :=
      congrArg (Stream.Pass.mk _) houtcome
    have hmoves := Stream.moves_runCommands hpass hquit p tail
    rw [units, hd]
    exact hmoves
  | none =>
    have hheads := heads_passOver hd flush r
    rw [h] at hheads
    rw [units, hd]
    dsimp only
    cases hheads with
    | waits hread hover =>
      obtain ⟨cut, rest, hunits, hle⟩ := StreamInfo.exists_unit_of_cut hread hover p tail
      rw [StreamInfo.headerBits, hread]
      exact ⟨List.suffix_refl _, fun _ => ⟨cut, rest, hunits, hle, (Nat.zero_add _).symm⟩⟩
    | @parsed info r' s hread hstart =>
      obtain ⟨n, hn, hwithin⟩ := (StreamInfo.selfDelimiting_read .error).ok
        (StreamInfo.outcome_read_lax hread)
      have hbits : r.available - r'.available = n := by
        have havailable := hn.available_eq
        omega
      have hunits := StreamInfo.units_of_ok (hwithin p tail)
      rw [hstart] at hunits
      rw [StreamInfo.headerBits, hread, hunits]
      dsimp only
      rw [hbits]
      exact ⟨List.suffix_cons _ _, fun hsuspended => by cases hsuspended⟩

end Decoder

/-! ## What lies ahead of a decoder -/

theorem BitReader.Passes.within_eq {r r' : BitReader} {n : Nat} (h : r.Passes n r') (p : Nat)
    (tail : List Bool) : r'.within (p + n) tail = (r.within p tail).advance n := by
  obtain ⟨hle, rfl⟩ := h
  have hrest : (r.rest ++ tail).drop n = r.rest.drop n ++ tail :=
    List.drop_append_of_le_length hle
  exact congrArg (BitReader.mk (p + n)) hrest.symm

namespace PendingInput

variable {p : PendingInput} {taken : Bytes} {position : Nat}

theorem ResumesAt.unread_eq (h : p.ResumesAt taken position) :
    p.unread = (Bits.ofBytes taken).drop position := by
  rw [unread, h.bytes, h.bitOffset, ← drop_ofBytes, List.drop_drop, Nat.div_add_mod]

/-- What is pending and what comes later is all that lies behind the place. -/
theorem ResumesAt.within_eq (h : p.ResumesAt taken position) (more : Bytes) :
    (⟨p.bitOffset, p.unread⟩ : BitReader).within position (Bits.ofBytes more) =
      .ofBytesAt (taken ++ more) position := by
  rw [BitReader.ofBytesAt_append h.position_le, BitReader.within, BitReader.within, h.unread_eq,
    BitReader.rest_ofBytesAt]

/-- A full buffer has all bits of its bytes but for those of the first one that are used up. -/
theorem ResumesAt.le_length_unread (h : p.ResumesAt taken position) :
    8 * p.length ≤ 7 + p.unread.length := by
  have hoffset := h.bitOffset
  rw [PendingInput.length_unread]
  omega

end PendingInput

namespace Decoder

variable {d : Decoder} {taken more : Bytes} {position : Nat}

/-- The units ahead of a decoder that has come to bit `position` are the last ones of the stream. -/
def Sees [Memory] (d : Decoder) (bytes : Bytes) (position : Nat) : Prop :=
  d.units (.ofBytesAt bytes position) <:+ unitsOf bytes

/-- What a pass over the pending input has done to the units of the whole stream. -/
theorem passesUnits [Memory] (h : d.input.ResumesAt taken position) {flush : Bool} {r' : BitReader}
    {stream : Option Stream} {ending : Stream.PassEnd}
    (hover : d.passOver flush d.resume = (stream, .ok (ending, r'))) (hquit : ending ≠ .quit)
    (more : Bytes) :
    PassesUnits (ending = .suspended) (d.units (.ofBytesAt (taken ++ more) position))
      (units { d with stream } (.ofBytesAt (taken ++ more) (position + d.passBits d.resume)))
      (d.passBits d.resume) r'.available := by
  have hmoves := moves_passOver hover hquit position (Bits.ofBytes more)
  have hpasses := passes_passOver (congrArg Prod.snd hover) hquit
  have hplace : (BitReader.ofBytesAt (taken ++ more) position).advance (d.passBits d.resume) =
      .ofBytesAt (taken ++ more) (position + d.passBits d.resume) :=
    BitReader.advance_advance _ _ _
  rw [hpasses.within_eq, resume, h.within_eq more, ← resume, hplace] at hmoves
  exact hmoves

/-- What the bits of a pass that has to wait were not enough for. -/
theorem demand_of_suspended [Memory] (h : d.input.ResumesAt taken position)
    (hsees : d.Sees (taken ++ more) position) {flush : Bool} {r' : BitReader}
    {stream : Option Stream}
    (hover : d.passOver flush d.resume = (stream, .ok (.suspended, r'))) :
    d.resume.available ≤ d.passBits d.resume + longestUnit (unitsOf (taken ++ more)) ∧
      d.resume.available ≤ longestStretch (unitsOf (taken ++ more)) := by
  obtain ⟨hsuffix, hwaits⟩ := passesUnits h hover nofun more
  obtain ⟨cut, rest, hcut, hle, hstretch⟩ := hwaits rfl
  have havailable := (passes_passOver (congrArg Prod.snd hover) nofun).available_eq
  have hunit := longestUnit_le_of_suffix (hsuffix.trans hsees)
  have hlongest := longestStretch_le_of_suffix hsees
  have hfirst := stretch_le_longestStretch (d.units (.ofBytesAt (taken ++ more) position))
  rw [hcut, longestUnit] at hunit
  rw [hcut, stretch] at hstretch
  constructor
  · omega
  · omega

/-! ## One call -/

variable {offered : Option Bytes}

/-- The decoder once it has taken what it can of the offered bytes. -/
def holding (d : Decoder) (offered : Option Bytes) : Decoder :=
  { d with input := (d.input.fill (offered.getD [])).2 }

theorem resumesAt_holding (h : d.input.ResumesAt taken position) (offered : Option Bytes) :
    (d.holding offered).input.ResumesAt
      (taken ++ (offered.getD []).take (d.input.fill (offered.getD [])).1) position :=
  PendingInput.resumesAt_fill h _

/-- What a call completes is completed by its pass. -/
theorem completedBits_of_ready [Memory] (h : d.input.ResumesAt taken position)
    (hc : d.condition = .active)
    (hready : (d.holding offered).input.isReady offered.isNone = true)
    (hroom : d.input.append (offered.getD []) = .ok (d.input.fill (offered.getD []))) :
    d.completedBits offered = (d.holding offered).passBits (d.holding offered).resume := by
  rw [completedBits, passStart_of_ready h.bitOffset_le hc hready hroom]
  rfl

/-- The call runs a pass, which has to wait. -/
structure Starves [Memory] (d : Decoder) (offered : Option Bytes) : Prop where
  active : d.condition = .active
  ready : (d.holding offered).input.isReady offered.isNone = true
  answer : (d.decode offered).value.2 =
    .ok ⟨(d.input.fill (offered.getD [])).1, .needMoreInput⟩

theorem Starves.room [Memory] (hs : d.Starves offered) :
    d.input.append (offered.getD []) = .ok (d.input.fill (offered.getD [])) := by
  rcases d.input.append_cases (offered.getD []) with hroom | hroom
  · exact hroom
  · have hanswer := hs.answer
    rw [value_decode_of_denied hs.active hroom] at hanswer
    cases hanswer

/-- **The frame size is doubled by the calls whose pass has to wait**, and changed by no other. -/
theorem frameSize_decode [Memory] (h : d.Accounts taken position) (offered : Option Bytes) :
    (d.Starves offered ∧ offered ≠ none ∧
        (d.decode offered).value.1.input.frameSize =
          min PendingInput.maxFrameSize (2 * d.input.frameSize) ∧
        ∃ stream r', (d.holding offered).passOver offered.isNone (d.holding offered).resume =
          (stream, .ok (.suspended, r'))) ∨
      (¬d.Starves offered ∧ (d.decode offered).value.1.input.frameSize = d.input.frameSize) := by
  have hcalls := h.calls_decode offered
  have hstarves (hs : d.Starves offered) := hs.answer
  generalize hanswer : (d.decode offered).value = answer at hcalls hstarves
  cases hcalls with
  | refused hc | ended hc =>
    refine .inr ⟨fun hs => ?_, rfl⟩
    have hactive := hs.active
    rw [hc] at hactive
    cases hactive
  | filling hc hready =>
    refine .inr ⟨fun hs => ?_, rfl⟩
    have hfull := hs.ready
    rw [holding, hready] at hfull
    cases hfull
  | passed hc hready hruns =>
    cases hruns with
    | suspended hover hn hconsume =>
      have hsame := (PendingInput.length_consume_le hconsume).1
      refine .inl ⟨⟨hc, hready, congrArg Prod.snd hanswer⟩, ?_, ?_, _, _, hover⟩
      · rintro rfl
        exact passOver_ne_suspended _ _ _ (congrArg Prod.snd hover)
      · exact congrArg (fun n => min PendingInput.maxFrameSize (2 * n)) hsame
    | completed hover hn hconsume hending =>
      refine .inr ⟨fun hs => ?_, (PendingInput.length_consume_le hconsume).1⟩
      have hstatus := congrArg (Except.map Output.status) (hstarves hs)
      exact hending (statusOf_eq_needMoreInput (Except.ok.inj hstatus))
  | failed hc hready hruns =>
    refine .inr ⟨fun hs => ?_, ?_⟩
    · cases hstarves hs
    · cases hruns
      rfl
  | denied => exact .inr ⟨fun hs => (nomatch hstarves hs), rfl⟩

/-- **What the buffer was too small for**: for the unit in which the pass has to wait and the units
that it completed before, and therefore for some stretch. -/
theorem demand_of_starves [Memory] (h : d.Accounts taken position) (hs : d.Starves offered)
    (hsees : ∀ more, d.Sees (taken ++ more) position) (more : Bytes) :
    let taken' := taken ++ (offered.getD []).take (consumedBytes (d.decode offered).value.2)
    8 * d.input.frameSize ≤
        7 + d.completedBits offered + longestUnit (unitsOf (taken' ++ more)) ∧
      8 * d.input.frameSize ≤ 7 + longestStretch (unitsOf (taken' ++ more)) := by
  intro taken'
  obtain ⟨-, hoffered, -, stream, r', hover⟩ | ⟨hnot, -⟩ := frameSize_decode h offered
  · have hresumes := resumesAt_holding (h.resumesAt hs.active) offered
    have htaken : taken' =
        taken ++ (offered.getD []).take (d.input.fill (offered.getD [])).1 := by
      show taken ++ (offered.getD []).take (consumedBytes _) = _
      rw [hs.answer]
      rfl
    rw [← htaken] at hresumes
    have hsees' : (d.holding offered).Sees (taken' ++ more) position := by
      show d.Sees (taken' ++ more) position
      rw [List.append_assoc]
      exact hsees _
    have hdemand := demand_of_suspended hresumes hsees' hover
    rw [← completedBits_of_ready (h.resumesAt hs.active) hs.active hs.ready hs.room] at hdemand
    have hfull : d.input.frameSize ≤ (d.holding offered).input.length := by
      have hready := hs.ready
      have hsome : offered.isNone = false := Option.isNone_eq_false_iff.2
        (Option.isSome_iff_ne_none.2 hoffered)
      rw [hsome, PendingInput.isReady, Bool.false_or, decide_eq_true_eq] at hready
      exact hready
    have hbits := hresumes.le_length_unread
    have havailable : (d.holding offered).resume.available =
      (d.holding offered).input.unread.length := rfl
    constructor
    · omega
    · omega
  · exact absurd hs hnot

/-- The units ahead of a decoder stay the last ones of the stream. -/
theorem sees_decode [Memory] (h : d.Accounts taken position)
    (hsees : d.condition = .active → ∀ more, d.Sees (taken ++ more) position)
    (offered : Option Bytes) (hc' : (d.decode offered).value.1.condition = .active) (more : Bytes) :
    (d.decode offered).value.1.Sees
      (taken ++ (offered.getD []).take (consumedBytes (d.decode offered).value.2) ++ more)
      (position + d.completedBits offered) := by
  have hcalls := h.calls_decode offered
  generalize (d.decode offered).value = answer at hcalls hc'
  have hc := hcalls.active hc'
  have hsees := hsees hc
  have hresumes := resumesAt_holding (h.resumesAt hc) offered
  have hsees' : (d.holding offered).Sees
      (taken ++ (offered.getD []).take (d.input.fill (offered.getD [])).1 ++ more) position := by
    show d.Sees _ position
    rw [List.append_assoc]
    exact hsees _
  cases hcalls with
  | refused hfailed | ended hfailed =>
    rw [hfailed] at hc
    cases hc
  | filling hc hready =>
    rw [completedBits, passStart_of_filling hready]
    exact hsees'
  | passed hc hready hruns hroom =>
    rw [completedBits_of_ready (h.resumesAt hc) hc hready hroom]
    cases hruns with
    | suspended hover hn hconsume =>
      have hquit : Stream.PassEnd.suspended ≠ .quit := by decide
      exact (passesUnits hresumes hover hquit more).suffix.trans hsees'
    | @completed stream ending r' n k p hover hn hconsume hending =>
      have hquit : ending ≠ .quit := by
        rintro rfl
        cases hc'
      exact (passesUnits hresumes hover hquit more).suffix.trans hsees'
  | failed hc hready hruns =>
    cases hruns
    cases hc'
  | denied => cases hc'

theorem Calls.initialFrameSize_eq [Memory] {answer : Decoder × Except Fault Output}
    (h : d.Calls offered answer) : answer.1.initialFrameSize = d.initialFrameSize := by
  rcases h with _ | _ | _ | ⟨-, -, hruns, -⟩ | ⟨-, -, hruns, -⟩ | _
  case passed | failed => rcases hruns <;> rfl
  all_goals rfl

end Decoder

/-! ## Any number of calls -/

namespace Ledger

/-- What the ledger of a decoder knows of the stream ahead, however the stream goes on. -/
structure Placed [Memory] (l : Ledger) (frameSize : Nat) : Prop where
  balanced : l.Balanced
  initialFrameSize_eq : l.decoder.initialFrameSize = frameSize
  sees : l.decoder.condition = .active → ∀ more, l.decoder.Sees (l.taken ++ more) l.position

variable {l : Ledger} {frameSize : Nat}

theorem placed_start [Memory] (hsize : frameSize ≤ PendingInput.maxFrameSize) (failLevel : Level) :
    (start frameSize failLevel).Placed frameSize where
  balanced := balanced_start hsize failLevel
  initialFrameSize_eq := rfl
  sees _ _ := List.suffix_refl _

theorem Placed.after [Memory] (h : l.Placed frameSize) (call : Call) :
    (l.after call).Placed frameSize := by
  refine ⟨h.balanced.after call, ?_, ?_⟩
  · cases call with
    | decode offered =>
      exact (h.balanced.calls_decode offered).initialFrameSize_eq.trans h.initialFrameSize_eq
    | setFailLevel failLevel => exact h.initialFrameSize_eq
    | reset => exact h.initialFrameSize_eq
  · cases call with
    | decode offered => exact Decoder.sees_decode h.balanced h.sees offered
    | setFailLevel failLevel => exact h.sees
    | reset => exact fun _ _ => List.suffix_refl _

theorem Placed.run [Memory] (h : l.Placed frameSize) (calls : List Call) :
    (l.run calls).Placed frameSize := by
  induction calls generalizing l with
  | nil => exact h
  | cons call calls ih => exact ih (h.after call)

/-- Some measure of the stream bounds the frame size, if every call that doubles it finds the buffer
too small for that much. -/
theorem frameSize_le_run [Memory] (hsize : frameSize ≤ PendingInput.maxFrameSize)
    (failLevel : Level) (measure : List ParseUnit → Nat) (calls : List Call)
    (hdemand : ∀ front offered back, calls = front ++ .decode offered :: back →
      ((start frameSize failLevel).run front).decoder.Starves offered → ∀ more,
        8 * ((start frameSize failLevel).run front).decoder.input.frameSize ≤ 7 + measure (unitsOf
          ((((start frameSize failLevel).run front).after (.decode offered)).taken ++ more)))
    (more : Bytes) :
    ((start frameSize failLevel).run calls).decoder.input.frameSize ≤
      max (max PendingInput.minimalFrameSize frameSize)
        (2 * roomFor
          (measure (unitsOf (((start frameSize failLevel).run calls).taken ++ more)))) := by
  induction calls using List.reverseRecOn generalizing more with
  | nil => exact Nat.le_max_left _ _
  | append_singleton calls call ih =>
    have hplaced := (placed_start hsize failLevel).run calls
    have hrun : (start frameSize failLevel).run (calls ++ [call]) =
        ((start frameSize failLevel).run calls).after call := List.foldl_append
    have hbound := ih fun front offered back hcalls => hdemand front offered (back ++ [call]) (by
      rw [hcalls, List.append_assoc, List.cons_append])
    have hlast (offered : Option Bytes) (hcall : call = .decode offered) :=
      hdemand calls offered [] (by rw [hcall])
    rw [hrun]
    generalize (start frameSize failLevel).run calls = l at hplaced hbound hlast
    cases call with
    | decode offered =>
      obtain ⟨hs, -, hsize', -⟩ | ⟨-, hsame⟩ :=
          Decoder.frameSize_decode hplaced.balanced offered
      · have hneed := hlast offered rfl hs more
        have hdouble : (l.after (.decode offered)).decoder.input.frameSize ≤
            2 * l.decoder.input.frameSize :=
          Nat.le_trans (Nat.le_of_eq hsize') (Nat.min_le_right _ _)
        rw [roomFor]
        omega
      · have hold := hbound ((offered.getD []).take
          (consumedBytes (l.decoder.decode offered).value.2) ++ more)
        rw [← List.append_assoc] at hold
        exact Nat.le_trans (Nat.le_of_eq hsame) hold
    | setFailLevel failLevel' => exact hbound more
    | reset =>
      refine Nat.le_trans (Nat.le_of_eq ?_) (Nat.le_max_left _ _)
      exact congrArg (max PendingInput.minimalFrameSize) hplaced.initialFrameSize_eq

end Ledger

/-- **How large the frame size gets**, whatever a caller does, and however the stream goes on behind
the bytes that were taken.  It is doubled by the calls whose pass has to wait, and changed by no
other but a reset; these are calls with input, and the full buffer was too small for what the pass
completed together with the unit behind it.  So the frame size stays below twice the room that the
longest stretch of the stream takes.  It stays below twice the room that the longest unit takes, if
no pass that has to wait has completed anything before. -/
theorem frameSize_of_run [Memory] {frameSize : Nat} (hsize : frameSize ≤ PendingInput.maxFrameSize)
    (failLevel : Level) (calls : List Call) (more : Bytes) :
    let l := (Ledger.start frameSize failLevel).run calls
    let units := unitsOf (l.taken ++ more)
    let least := max PendingInput.minimalFrameSize frameSize
    l.decoder.input.frameSize ≤ max least (2 * roomFor (longestStretch units)) ∧
    ((∀ front offered back, calls = front ++ .decode offered :: back →
        ((Ledger.start frameSize failLevel).run front).decoder.Starves offered →
        ((Ledger.start frameSize failLevel).run front).decoder.completedBits offered = 0) →
      l.decoder.input.frameSize ≤ max least (2 * roomFor (longestUnit units))) ∧
    ∀ offered, let l' := l.after (.decode offered)
      (l.decoder.Starves offered → offered ≠ none ∧
        l'.decoder.input.frameSize =
          min PendingInput.maxFrameSize (2 * l.decoder.input.frameSize) ∧
        8 * l.decoder.input.frameSize ≤
          7 + l.decoder.completedBits offered + longestUnit (unitsOf (l'.taken ++ more))) ∧
      (¬l.decoder.Starves offered →
        l'.decoder.input.frameSize = l.decoder.input.frameSize) := by
  intro l units least
  have hplaced (calls : List Call) := (Ledger.placed_start hsize failLevel).run calls
  have hdemand (calls : List Call) {offered : Option Bytes}
      (hs : ((Ledger.start frameSize failLevel).run calls).decoder.Starves offered) :=
    Decoder.demand_of_starves (hplaced calls).balanced hs ((hplaced calls).sees hs.active)
  refine ⟨?_, ?_, ?_⟩
  · refine Ledger.frameSize_le_run hsize failLevel longestStretch calls ?_ more
    intro front offered back hcalls hs more
    exact (hdemand front hs more).2
  · intro hnothing
    refine Ledger.frameSize_le_run hsize failLevel longestUnit calls ?_ more
    intro front offered back hcalls hs more
    have hunit := (hdemand front hs more).1
    rw [hnothing front offered back hcalls hs] at hunit
    exact hunit
  · intro offered l'
    obtain ⟨hs, hoffered, hdouble, -⟩ | ⟨hnot, hsame⟩ :=
      Decoder.frameSize_decode (hplaced calls).balanced offered
    · exact ⟨fun _ => ⟨hoffered, hdouble, (hdemand calls hs more).1⟩, fun hnot => absurd hs hnot⟩
    · exact ⟨fun hs => absurd hs hnot, fun _ => hsame⟩

/-- The header of a mono stream in 484 bits, eighty bitshifts of seven bits, and the end. -/
def shortCommands : Bytes :=
  [0x61, 0x6A, 0x6B, 0x67, 0x02, 0x4A, 0xC7, 0x26, 0x93, 0x62, 0xAC, 0xA9, 0x52, 0x68, 0xD4, 0x69,
    0x24, 0x02, 0x01, 0x00, 0xAB, 0xD0, 0x6A, 0xD4, 0x5B, 0x35, 0xB6, 0xE9, 0x20, 0x88, 0x40, 0x20,
    0x10, 0x08, 0x0C, 0x02, 0x03, 0x00, 0xA2, 0x6B, 0x20, 0x10, 0x0C, 0x45, 0x62, 0x03, 0x00, 0x81,
    0x40, 0x22, 0x10, 0x0B, 0x25, 0x86, 0xE9, 0x61, 0x80, 0x40, 0x20, 0x10, 0x06] ++
  (List.replicate 9 [0x8D, 0x1A, 0x34, 0x68, 0xD1, 0xA3, 0x46]).flatten ++
  [0x8D, 0x1A, 0x34, 0x68, 0xD1, 0xA3, 0x44]

/-- The first call reads the header, and the second one seventy-four bitshifts. -/
def shortCommandsCalls : List Call :=
  [.decode (some shortCommands), .decode (some (shortCommands.drop 66))]

open scoped Memory

theorem frameSize_of_run_shortCommands :
    66 ≤ PendingInput.maxFrameSize ∧
      let l := (Ledger.start 66 .error).run (shortCommandsCalls.take 1)
      let offered := some (shortCommands.drop 66)
      let l' := l.after (.decode offered)
      l.decoder.input.frameSize ≤
        max (max 16 66)
          (2 * roomFor (longestStretch (unitsOf (l.taken ++ shortCommands.drop 66)))) ∧
      l.decoder.Starves offered ∧ l.decoder.completedBits offered = 518 ∧
      l'.decoder.input.frameSize =
        min PendingInput.maxFrameSize (2 * l.decoder.input.frameSize) := by
  have hsize : 66 ≤ PendingInput.maxFrameSize := by decide
  obtain ⟨hbound, -, hcall⟩ :=
    frameSize_of_run hsize .error (shortCommandsCalls.take 1) (shortCommands.drop 66)
  have hs : Decoder.Starves ((Ledger.start 66 .error).run (shortCommandsCalls.take 1)).decoder
      (some (shortCommands.drop 66)) := by
    refine ⟨?_, ?_, ?_⟩
    · decide +kernel
    · decide +kernel
    · decide +kernel
  have hbits : Decoder.completedBits
      ((Ledger.start 66 .error).run (shortCommandsCalls.take 1)).decoder
      (some (shortCommands.drop 66)) = 518 := by
    decide +kernel
  exact ⟨hsize, hbound, hs, hbits, ((hcall _).1 hs).2.1⟩

/-- **Short commands make the frame size grow.**  The longest unit is the header with its 484 bits,
for which twice 62 bytes would do. -/
theorem frameSize_exceeds_units : ¬ ∀ (frameSize : Nat) (failLevel : Level) (calls : List Call)
    (more : Bytes), frameSize ≤ PendingInput.maxFrameSize →
    ((Ledger.start frameSize failLevel).run calls).decoder.input.frameSize ≤
      max (max PendingInput.minimalFrameSize frameSize) (2 * roomFor (longestUnit
        (unitsOf (((Ledger.start frameSize failLevel).run calls).taken ++ more)))) := by
  intro hlaw
  have hbound := hlaw 66 .error shortCommandsCalls (shortCommands.drop 126) (by decide)
  have hframe :
      ((Ledger.start 66 .error).run shortCommandsCalls).decoder.input.frameSize = 132 := by
    decide +kernel
  have hunits : longestUnit (unitsOf (((Ledger.start 66 .error).run shortCommandsCalls).taken ++
      shortCommands.drop 126)) = 484 := by
    decide +kernel
  rw [hframe, hunits] at hbound
  exact absurd hbound (by decide)

end LosslessAudio
