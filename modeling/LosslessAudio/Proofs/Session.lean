import LosslessAudio.Proofs.Calls
import LosslessAudio.Proofs.Shape
import LosslessAudio.Proofs.Steps

/-!
# Sessions

A caller may offer a decoder anything, say that the input is complete and then offer more, change
what counts as a failure and start over, in any order.  `Session` is a decoder after some such
calls, together with the blocks that it has decoded and the frames that it has given back since it
was last started over.

`steps_of_run` says how far a decoder can get in this way: to states that lie behind an accepted
header and any number of commands, whose blocks and frames are those of the session.
-/

set_option autoImplicit false

namespace LosslessAudio

/-- What a caller can do with a decoder. -/
inductive Call where
  /-- Offers some bytes, or says that the input is complete. -/
  | decode (offered : Option Bytes)
  | setFailLevel (level : Level)
  | reset

/-- The frame in the answer of a call, if any. -/
def answerFrames : Except Fault Output → List Frame
  | .ok out => out.status.frames
  | .error _ => []

/-- The blocks that a pass decodes; a pass over the header decodes none. -/
def passBlocks [Memory] (stream : Option Stream) (r : BitReader) : List Block :=
  match stream with
  | none => []
  | some s => s.blocksAhead r

/-- The blocks that the audio commands of a call decode, those that are complete. -/
def Decoder.blocksOf [Memory] (d : Decoder) (offered : Option Bytes) : List Block :=
  (d.passStart offered).elim [] (passBlocks d.stream)

/-- A decoder with all that it has decoded since it was last started over. -/
structure Session where
  decoder : Decoder
  blocks : List Block
  frames : List Frame

namespace Session

/-- A decoder before its first call. -/
def start (frameSize : Nat) (failLevel : Level) : Session :=
  ⟨.start frameSize failLevel, [], []⟩

/-- The session behind one more call. -/
def after [Memory] (t : Session) : Call → Session
  | .decode offered =>
    let (decoder, answer) := (t.decoder.decode offered).value
    ⟨decoder, t.blocks ++ t.decoder.blocksOf offered, t.frames ++ answerFrames answer⟩
  | .setFailLevel failLevel => { t with decoder := { t.decoder with failLevel } }
  | .reset => ⟨t.decoder.reset, [], []⟩

/-- The session behind any number of calls. -/
def run [Memory] (t : Session) (calls : List Call) : Session :=
  calls.foldl after t

end Session

/-! ## Passes and calls -/

/-- What a stream went through: nothing before its header is read, steps from then on. -/
def Reached [Memory] (stream : Option Stream) (blocks : List Block) (frames : List Frame) : Prop :=
  match stream with
  | none => blocks = [] ∧ frames = []
  | some s => ∃ info s₀, info.Sound ∧ Stream.start info = .ok s₀ ∧ s₀.Steps blocks frames s

theorem reached_passOver [Memory] {d : Decoder} {blocks : List Block} {frames : List Frame}
    (h : Reached d.stream blocks frames) (flush : Bool) (r : BitReader) :
    Reached (d.passOver flush r).1 (blocks ++ passBlocks d.stream r)
      (frames ++ Stream.outcomeFrames (d.passOver flush r).2) := by
  rw [Decoder.passOver]
  cases hstream : d.stream with
  | some s =>
    rw [hstream] at h
    obtain ⟨info, s₀, hinfo, hstart, hsteps⟩ := h
    exact ⟨info, s₀, hinfo, hstart, hsteps.trans (s.steps_runCommands d.failLevel flush r)⟩
  | none =>
    rw [hstream] at h
    obtain ⟨rfl, rfl⟩ := h
    dsimp only
    rw [Decoder.value_readHeader]
    cases hread : (StreamInfo.read d.failLevel r).outcome with
    | error fault =>
      dsimp only
      split <;> exact ⟨rfl, rfl⟩
    | ok x =>
      obtain ⟨info, r'⟩ := x
      dsimp only
      cases hstart : Stream.start info with
      | error fault => exact ⟨rfl, rfl⟩
      | ok s => exact ⟨info, s, StreamInfo.sound_of_read hread, hstart, .refl⟩

theorem reached_runs [Memory] {d d' : Decoder} {blocks : List Block} {frames : List Frame}
    (hoffset : d.input.bitOffset ≤ 8 * d.input.length) (h : Reached d.stream blocks frames)
    {flush : Bool} {answer : Except Fault Status} (hruns : d.Runs flush (d', answer))
    (consumed : Nat) :
    d'.input.bitOffset ≤ 8 * d'.input.length ∧
      Reached d'.stream (blocks ++ passBlocks d.stream d.resume)
        (frames ++ answerFrames (answer.map (⟨consumed, ·⟩))) := by
  have hreached := reached_passOver h flush d.resume
  rcases hruns with ⟨hover⟩ | ⟨hover, hn, hconsume⟩ |
    @⟨stream, ending, r', n, k, p, hover, hn, hconsume, -⟩
  all_goals rw [hover] at hreached
  · exact ⟨Nat.zero_le _, hreached⟩
  · obtain ⟨_, _, hconsume', -, ⟨hoffset', -⟩, -⟩ := PendingInput.consume_of_passes hoffset hn
    cases hconsume.symm.trans hconsume'
    exact ⟨hoffset', hreached⟩
  · obtain ⟨_, _, hconsume', -, ⟨hoffset', -⟩, -⟩ := PendingInput.consume_of_passes hoffset hn
    cases hconsume.symm.trans hconsume'
    have hframes : answerFrames (.ok ⟨consumed, Decoder.statusOf ending⟩) = ending.frames :=
      Decoder.frames_statusOf ending
    exact ⟨hoffset', hframes.symm ▸ hreached⟩

theorem reached_decode [Memory] {d : Decoder} {blocks : List Block} {frames : List Frame}
    (hoffset : d.input.bitOffset ≤ 8 * d.input.length) (h : Reached d.stream blocks frames)
    (offered : Option Bytes) :
    let answer := (d.decode offered).value
    answer.1.input.bitOffset ≤ 8 * answer.1.input.length ∧
      Reached answer.1.stream (blocks ++ d.blocksOf offered) (frames ++ answerFrames answer.2) := by
  have hcalls := d.calls_decode (fun _ => hoffset) offered
  have hlength := PendingInput.length_fill (p := d.input) (offered.getD [])
  have hsame : (d.input.fill (offered.getD [])).2.bitOffset = d.input.bitOffset := rfl
  have hoffset' : (d.input.fill (offered.getD [])).2.bitOffset ≤
      8 * (d.input.fill (offered.getD [])).2.length := by
    omega
  generalize (d.decode offered).value = answer at hcalls
  dsimp only
  rw [Decoder.blocksOf]
  cases hcalls with
  | refused hc | ended hc =>
    rw [Decoder.passStart_of_not_active (by rw [hc]; decide)]
    exact ⟨hoffset, (List.append_nil blocks).symm ▸ (List.append_nil frames).symm ▸ h⟩
  | filling hc hready =>
    rw [Decoder.passStart_of_filling hready]
    exact ⟨hoffset', (List.append_nil blocks).symm ▸ (List.append_nil frames).symm ▸ h⟩
  | denied hc hroom =>
    rw [Decoder.passStart_of_denied hroom]
    exact ⟨Nat.zero_le _, (List.append_nil blocks).symm ▸ (List.append_nil frames).symm ▸ h⟩
  | passed hc hready hruns hroom | failed hc hready hruns hroom =>
    rw [Decoder.passStart_of_ready hoffset hc hready hroom]
    exact reached_runs (d := { d with input := (d.input.fill (offered.getD [])).2 }) hoffset' h
      hruns (d.input.fill (offered.getD [])).1

/-! ## Any number of calls -/

namespace Session

/-- What holds of a session between two calls. -/
structure Intact [Memory] (t : Session) : Prop where
  bitOffset_le : t.decoder.input.bitOffset ≤ 8 * t.decoder.input.length
  reached : Reached t.decoder.stream t.blocks t.frames

theorem intact_start [Memory] (frameSize : Nat) (failLevel : Level) :
    (start frameSize failLevel).Intact :=
  ⟨Nat.zero_le _, rfl, rfl⟩

theorem Intact.after [Memory] {t : Session} (h : t.Intact) (call : Call) :
    (t.after call).Intact := by
  cases call with
  | decode offered =>
    obtain ⟨hoffset, hreached⟩ := reached_decode h.bitOffset_le h.reached offered
    exact ⟨hoffset, hreached⟩
  | setFailLevel failLevel => exact ⟨h.bitOffset_le, h.reached⟩
  | reset => exact intact_start _ _

theorem Intact.run [Memory] {t : Session} (h : t.Intact) (calls : List Call) :
    (t.run calls).Intact := by
  induction calls generalizing t with
  | nil => exact h
  | cons call calls ih => exact ih (h.after call)

/-- **How far a decoder can get.**  Whatever is done with it, its stream lies behind an accepted
header, and went through the steps of the blocks and frames of the session. -/
theorem steps_of_run [Memory] {frameSize : Nat} {failLevel : Level} {calls : List Call} {s : Stream}
    (hs : ((start frameSize failLevel).run calls).decoder.stream = some s) :
    ∃ info s₀, info.Sound ∧ Stream.start info = .ok s₀ ∧
      s₀.Steps ((start frameSize failLevel).run calls).blocks
        ((start frameSize failLevel).run calls).frames s := by
  have h := ((intact_start frameSize failLevel).run calls).reached
  rw [hs] at h
  exact h

end Session

end LosslessAudio
