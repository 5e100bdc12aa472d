import LosslessAudio.Proofs.Playback

/-!
# What a call does

Everything that a call can do to a decoder, once and for all: `Decoder.Heads` lists the ways in
which a pass over the header can go, `Decoder.Runs` those of any pass, and `Decoder.Calls` those of
a call.  `Decoder.passStart` is where the pass of a call begins, if it runs one.  What holds of
every decoder that a caller can get to is shown along these cases.
-/

set_option autoImplicit false

namespace LosslessAudio

namespace Decoder

variable [Memory]

/-- The stream that a pass over the header leaves, and how the pass ends. -/
inductive Heads (failLevel : Level) (flush : Bool) (r : BitReader) :
    Option Stream × Except Fault (Stream.PassEnd × BitReader) → Prop
  /-- The bits run out, and there may be more. -/
  | waits {fault : Fault} (hread : (StreamInfo.read failLevel r).outcome = .error fault)
      (hover : fault.isOverread = true) (hflush : flush = false) :
      Heads failLevel flush r (none, .ok (.suspended, r))
  | refused {fault : Fault} (hread : (StreamInfo.read failLevel r).outcome = .error fault)
      (hnow : flush = false → fault.isOverread = false) :
      Heads failLevel flush r (none, .error fault)
  /-- There is no room for the histories. -/
  | tooLarge {info : StreamInfo} {r' : BitReader} {fault : Fault}
      (hread : (StreamInfo.read failLevel r).outcome = .ok (info, r'))
      (hstart : Stream.start info = .error fault) : Heads failLevel flush r (none, .error fault)
  | parsed {info : StreamInfo} {r' : BitReader} {s : Stream}
      (hread : (StreamInfo.read failLevel r).outcome = .ok (info, r'))
      (hstart : Stream.start info = .ok s) : Heads failLevel flush r (some s, .ok (.paused, r'))

/-- The reader that a pass begins with. -/
def resume (d : Decoder) : BitReader :=
  ⟨d.input.bitOffset, d.input.unread⟩

/-- What a pass makes of a decoder, and what it answers. -/
inductive Runs (d : Decoder) (flush : Bool) : Decoder × Except Fault Status → Prop
  /-- It gives up. -/
  | failed {stream : Option Stream} {fault : Fault}
      (h : d.passOver flush d.resume = (stream, .error fault)) :
      Runs d flush ({ d with stream, input := d.input.clear, condition := .failed },
        .error (fault.reported d.input.length))
  /-- It drops what it has used up, and waits for more input. -/
  | suspended {stream : Option Stream} {r' : BitReader} {n k : Nat} {p : PendingInput}
      (h : d.passOver flush d.resume = (stream, .ok (.suspended, r')))
      (hn : d.resume.Passes n r') (hconsume : d.input.consume r'.position = (.ok k, p)) :
      Runs d flush ({ d with stream, input := p.grow }, .ok .needMoreInput)
  /-- It drops what it has used up, and goes on or ends. -/
  | completed {stream : Option Stream} {ending : Stream.PassEnd} {r' : BitReader} {n k : Nat}
      {p : PendingInput} (h : d.passOver flush d.resume = (stream, .ok (ending, r')))
      (hn : d.resume.Passes n r') (hconsume : d.input.consume r'.position = (.ok k, p))
      (hending : ending ≠ .suspended) :
      Runs d flush ({ d with
        stream
        input := p
        condition := if ending = .quit then .finished else d.condition }, .ok (statusOf ending))

/-- What a call makes of a decoder, and what it answers. -/
inductive Calls (d : Decoder) (offered : Option Bytes) : Decoder × Except Fault Output → Prop
  | refused (hc : d.condition = .failed) : Calls d offered (d, .error .failedBefore)
  | ended (hc : d.condition = .finished) :
      Calls d offered (d, .ok ⟨(offered.getD []).length, .finished⟩)
  /-- It takes some bytes, which are not enough for a pass. -/
  | filling (hc : d.condition = .active)
      (hready : (d.input.fill (offered.getD [])).2.isReady offered.isNone = false)
      (hroom : d.input.append (offered.getD []) = .ok (d.input.fill (offered.getD []))) :
      Calls d offered ({ d with input := (d.input.fill (offered.getD [])).2 },
        .ok ⟨(d.input.fill (offered.getD [])).1, .needMoreInput⟩)
  /-- It takes some bytes, and a pass runs over what is pending. -/
  | passed (hc : d.condition = .active)
      (hready : (d.input.fill (offered.getD [])).2.isReady offered.isNone = true)
      {d' : Decoder} {status : Status}
      (hruns : Runs { d with input := (d.input.fill (offered.getD [])).2 } offered.isNone
        (d', .ok status))
      (hroom : d.input.append (offered.getD []) = .ok (d.input.fill (offered.getD []))) :
      Calls d offered (d', .ok ⟨(d.input.fill (offered.getD [])).1, status⟩)
  /-- The pass fails. -/
  | failed (hc : d.condition = .active)
      (hready : (d.input.fill (offered.getD [])).2.isReady offered.isNone = true)
      {d' : Decoder} {fault : Fault}
      (hruns : Runs { d with input := (d.input.fill (offered.getD [])).2 } offered.isNone
        (d', .error fault))
      (hroom : d.input.append (offered.getD []) = .ok (d.input.fill (offered.getD []))) :
      Calls d offered (d', .error fault)
  /-- There is no room for the bytes. -/
  | denied (hc : d.condition = .active) {n : Nat}
      (hroom : d.input.append (offered.getD []) =
        .error (.storage (.allocation Purpose.input.name n))) :
      Calls d offered ({ d with input := d.input.clear, condition := .failed },
        .error (.storage (.allocation Purpose.input.name n)))

variable {d : Decoder}

/-- **There is nothing else that a pass over the header can do.** -/
theorem heads_passOver (hd : d.stream = none) (flush : Bool) (r : BitReader) :
    Heads d.failLevel flush r (d.passOver flush r) := by
  rw [passOver, hd]
  dsimp only
  rw [value_readHeader]
  cases hread : (StreamInfo.read d.failLevel r).outcome with
  | error fault =>
    dsimp only
    by_cases hwait : (fault.isOverread && !flush) = true
    · rw [if_pos hwait]
      rw [Bool.and_eq_true, Bool.not_eq_true'] at hwait
      exact .waits hread hwait.1 hwait.2
    · rw [if_neg hwait]
      refine .refused hread ?_
      rintro rfl
      rwa [Bool.not_false, Bool.and_true, Bool.not_eq_true] at hwait
  | ok x =>
    obtain ⟨info, r'⟩ := x
    dsimp only
    cases hstart : Stream.start info with
    | error fault => exact .tooLarge hread hstart
    | ok s => exact .parsed hread hstart

/-- **There is nothing else that a pass can do.** -/
theorem runs_runPass (hoffset : d.input.bitOffset ≤ 8 * d.input.length) (flush : Bool) :
    d.Runs flush (d.runPass flush).value := by
  have hfollowed := d.passOver_followedBy flush d.resume (fun _ => (rfl : ([] : List Bool) = []))
  rw [value_runPass hoffset]
  cases hover : d.passOver flush d.resume with
  | mk stream outcome =>
  have hover' := hover
  rw [hover] at hfollowed
  rw [resume] at hover
  rw [hover]
  cases outcome with
  | error fault => exact .failed hover'
  | ok x =>
    obtain ⟨ending, r'⟩ := x
    obtain ⟨n, hn, -⟩ := hfollowed.passes rfl
    obtain ⟨k, p, hconsume, -⟩ := PendingInput.consume_of_passes hoffset hn
    dsimp only
    rw [value_settle (d := { d with stream }) hconsume]
    by_cases hending : ending = .suspended
    · subst hending
      exact .suspended hover' hn hconsume
    · rw [if_neg hending]
      exact .completed hover' hn hconsume hending

/-- **There is nothing else that a call can do.** -/
theorem calls_decode
    (hoffset : d.condition = .active → d.input.bitOffset ≤ 8 * d.input.length)
    (offered : Option Bytes) : d.Calls offered (d.decode offered).value := by
  cases hc : d.condition with
  | failed =>
    rw [value_decode_of_failed hc]
    exact .refused hc
  | finished =>
    rw [value_decode_of_finished hc]
    exact .ended hc
  | active =>
    rcases d.input.append_cases (offered.getD []) with hroom | hroom
    case inr =>
      rw [value_decode_of_denied hc hroom]
      exact .denied hc hroom
    rw [value_decode hc offered hroom]
    dsimp only
    split
    · have hoffset' : (d.input.fill (offered.getD [])).2.bitOffset ≤
          8 * (d.input.fill (offered.getD [])).2.length := by
        rw [PendingInput.length_fill]
        exact Nat.le_trans (hoffset hc) (Nat.mul_le_mul_left 8 (Nat.le_add_right _ _))
      have hruns := runs_runPass (d := { d with input := (d.input.fill (offered.getD [])).2 })
        hoffset' offered.isNone
      generalize (runPass { d with input := (d.input.fill (offered.getD [])).2 }
        offered.isNone).value = answer at hruns ⊢
      obtain ⟨d', status | fault⟩ := answer
      · exact .failed hc ‹_› hruns hroom
      · exact .passed hc ‹_› hruns hroom
    · exact .filling hc (Bool.eq_false_iff.2 ‹_›) hroom

/-! ## The pass of a call -/

/-- Where the pass of a call begins, if it runs one. -/
def passStart (d : Decoder) (offered : Option Bytes) : Option BitReader :=
  match d.condition, d.input.append (offered.getD []) with
  | .active, .ok (_, input) =>
    if input.isReady offered.isNone then input.reader.toOption else none
  | _, _ => none

theorem passStart_of_not_active (hc : d.condition ≠ .active) (offered : Option Bytes) :
    d.passStart offered = none := by
  rw [passStart]
  cases hcondition : d.condition with
  | active => exact absurd hcondition hc
  | failed | finished => rfl

theorem passStart_of_denied {offered : Option Bytes} {fault : Fault}
    (hroom : d.input.append (offered.getD []) = .error fault) : d.passStart offered = none := by
  rw [passStart, hroom]
  cases d.condition <;> rfl

theorem passStart_of_filling {offered : Option Bytes}
    (hready : (d.input.fill (offered.getD [])).2.isReady offered.isNone = false) :
    d.passStart offered = none := by
  rcases d.input.append_cases (offered.getD []) with hroom | hroom
  · rw [passStart, hroom]
    cases d.condition with
    | active => exact if_neg (Bool.eq_false_iff.1 hready)
    | failed | finished => rfl
  · exact passStart_of_denied hroom

theorem passStart_of_ready (hoffset : d.input.bitOffset ≤ 8 * d.input.length)
    (hc : d.condition = .active) {offered : Option Bytes}
    (hready : (d.input.fill (offered.getD [])).2.isReady offered.isNone = true)
    (hroom : d.input.append (offered.getD []) = .ok (d.input.fill (offered.getD []))) :
    d.passStart offered =
      some (resume { d with input := (d.input.fill (offered.getD [])).2 }) := by
  have hoffset' : (d.input.fill (offered.getD [])).2.bitOffset ≤
      8 * (d.input.fill (offered.getD [])).2.length := by
    rw [PendingInput.length_fill]
    exact Nat.le_trans hoffset (Nat.mul_le_mul_left 8 (Nat.le_add_right _ _))
  rw [passStart, hc, hroom]
  dsimp only
  rw [if_pos hready, PendingInput.reader_eq hoffset']
  rfl

theorem active_of_passStart {offered : Option Bytes} {r : BitReader}
    (h : d.passStart offered = some r) : d.condition = .active := by
  rw [passStart] at h
  cases hc : d.condition with
  | active => rfl
  | failed | finished =>
    rw [hc] at h
    cases h

/-- A pass begins where the last one ended. -/
theorem eq_resume_of_passStart (hoffset : d.input.bitOffset ≤ 8 * d.input.length)
    {offered : Option Bytes} {r : BitReader} (h : d.passStart offered = some r) :
    r = resume { d with input := (d.input.fill (offered.getD [])).2 } := by
  have hc := active_of_passStart h
  rcases d.input.append_cases (offered.getD []) with hroom | hroom
  · cases hready : (d.input.fill (offered.getD [])).2.isReady offered.isNone with
    | false =>
      rw [passStart_of_filling hready] at h
      cases h
    | true =>
      rw [passStart_of_ready hoffset hc hready hroom] at h
      exact (Option.some.inj h).symm
  · rw [passStart_of_denied hroom] at h
    cases h

/-! ## What every call has in common -/

variable {offered : Option Bytes} {answer : Decoder × Except Fault Output}

/-- Only a reset makes a decoder decode again. -/
theorem Calls.active (h : d.Calls offered answer) (hc' : answer.1.condition = .active) :
    d.condition = .active := by
  cases h with
  | refused hc | ended hc => exact hc'
  | filling hc | passed hc | failed hc | denied hc => exact hc

/-- No call changes what counts as a failure. -/
theorem Calls.failLevel_eq (h : d.Calls offered answer) : answer.1.failLevel = d.failLevel := by
  rcases h with _ | _ | _ | ⟨-, -, hruns, -⟩ | ⟨-, -, hruns, -⟩ | _
  case passed | failed => rcases hruns <;> rfl
  all_goals rfl

/-- A call that does not fail takes no more than it was offered. -/
theorem Calls.consumed_le {d' : Decoder} {out : Output} (h : d.Calls offered (d', .ok out)) :
    out.consumed ≤ (offered.getD []).length := by
  have hle : (d.input.fill (offered.getD [])).1 ≤ (offered.getD []).length :=
    PendingInput.consumed_fill (p := d.input) _ ▸ Nat.min_le_right _ _
  cases h with
  | ended hc => exact Nat.le_refl _
  | filling hc | passed hc => exact hle

end Decoder

end LosslessAudio
