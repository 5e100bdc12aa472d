import LosslessAudio.Proofs.Findings
import LosslessAudio.Proofs.Intakes

/-!
# What the fail level decides

The fail level says which findings are failures.  `failLevel_decides_findings` compares whole runs
over the same input at two levels: they are the same, call by call, unless the stricter one fails
with a finding.  Up to there they are still the same, and there the laxer one goes on with a warning
about just this finding.  A run meets each of the two findings once at most.

Calls are compared by `Decoder.weighed_decode`; the runs from that, by induction on their calls.
-/

set_option autoImplicit false

namespace LosslessAudio

/-! ## Runs with their logs -/

/-- What a call gives back: the decoder behind it and its answer, with the records it leaves. -/
abbrev Answer :=
  Logged (Decoder × Except Fault Output)

namespace Answer

/-- The answer with the decoder at another fail level. -/
def atLevel (a : Answer) (failLevel : Level) : Answer :=
  ⟨Decoder.placed failLevel a.value, a.log⟩

/-- The fault that the call fails with, if it fails. -/
def fault? (a : Answer) : Option Fault :=
  match a.value.2 with
  | .ok _ => none
  | .error fault => some fault

/-- The records of the findings of a call, those that it logs and the one that it fails with. -/
def findings (a : Answer) : List Record :=
  warnings a.log ++ ((a.fault?.bind Finding.ofFault?).map Finding.record).toList

end Answer

/-- What is left to offer behind a call that took `taken` bytes. -/
def stillToOffer (taken : Nat) : List Bytes → List Bytes
  | [] => []
  | piece :: pieces => leftover piece taken pieces

/-- The first `n` answers that a caller gets who offers the pieces one after the other, offers again
what was not taken, and finally says that the input is complete, until a call fails. -/
def Decoder.answers [Memory] : Nat → Decoder → List Bytes → List Answer
  | 0, _, _ => []
  | n + 1, d, pieces =>
    let answer := d.decode pieces.head?
    answer ::
      match answer.value with
      | (_, .error _) => []
      | (d', .ok out) => answers n d' (stillToOffer out.consumed pieces)

namespace Decoder

variable {d : Decoder}

/-- No call leaves a place behind the end of what is pending. -/
theorem bitOffset_le_decode [Memory] (hoffset : d.input.bitOffset ≤ 8 * d.input.length)
    (offered : Option Bytes) :
    (d.decode offered).value.1.input.bitOffset ≤
      8 * (d.decode offered).value.1.input.length := by
  have hfilled : d.input.bitOffset ≤ 8 * (d.filled offered).length := by
    rw [length_filled]
    exact Nat.le_trans hoffset (Nat.mul_le_mul_left 8 (Nat.le_add_right _ _))
  have hpasses {r' : BitReader} {n k : Nat} {p : PendingInput}
      (hn : (resume { d with input := d.filled offered }).Passes n r')
      (hconsume : (d.filled offered).consume r'.position = (.ok k, p)) :
      p.bitOffset ≤ 8 * p.length := by
    obtain ⟨_, _, hconsume', -, ⟨hle, -⟩, -⟩ := PendingInput.consume_of_passes hfilled hn
    rw [hconsume] at hconsume'
    obtain ⟨-, rfl⟩ := Prod.mk.inj hconsume'
    exact hle
  have hcalls := calls_decode (fun _ => hoffset) offered
  generalize (d.decode offered).value = answer at hcalls ⊢
  rcases hcalls with _ | _ | _ | ⟨-, -, hruns, -⟩ | ⟨-, -, hruns, -⟩ | _
  case refused | ended => exact hoffset
  case denied => exact Nat.zero_le _
  case filling => exact hfilled
  case passed =>
    rcases hruns with _ | ⟨-, hn, hconsume⟩ | ⟨-, hn, hconsume⟩
    · have hle := hpasses hn hconsume
      exact hle
    · exact hpasses hn hconsume
  case failed =>
    cases hruns
    exact Nat.zero_le _

end Decoder

/-! ## Two runs over the same input -/

/-- What the laxer run does at the call at which the stricter one fails with the finding `f`: `last`
is the answer of the stricter run there, `here` that of the laxer one, and `later` what follows. -/
inductive Answer.ComesTo (failLevel : Level) (f : Finding) (last here : Answer)
    (later : List Answer) : Prop
  /-- It fails with the same fault. -/
  | fails (h : here = last.atLevel failLevel) (hlater : later = [])
  /-- It logs the finding and goes on. -/
  | goesOn {more : List Record} (h : here.fault? = none)
      (hlog : here.log = last.log ++ f.record :: more) (honly : warnings here.log = [f.record])
  /-- It logs the finding, and there is no room for the histories that the header asks for. -/
  | tooLarge {more : List Record} {version : UInt8} {purpose : String} {elements : Nat}
      (hf : f = .unexpectedVersion version)
      (h : here.fault? = some (.storage (.allocation purpose elements)))
      (hlog : here.log = last.log ++ f.record :: more) (honly : warnings here.log = [f.record])
      (hlater : later = [])

/-- How the answers of a run relate to those of a run over the same input with the fail level `lax`,
at which not more findings are failures. -/
structure Answer.Agree (lax : Level) (strict lenient : List Answer) : Prop where
  /-- A run without a failure is the same at both levels. -/
  unfailed : (∀ a ∈ strict, a.fault? = none) → lenient = strict.map (·.atLevel lax)
  /-- A failure that is no finding is the same failure of the same call. -/
  failed : ∀ agreed last fault, strict = agreed ++ [last] → last.fault? = some fault →
    (∀ f : Finding, fault ≠ f.fault) → lenient = strict.map (·.atLevel lax)
  /-- Up to a failure that is a finding the runs are the same. -/
  found : ∀ agreed last f, strict = agreed ++ [last] → last.fault? = some f.fault →
    ∃ here later, lenient = agreed.map (·.atLevel lax) ++ here :: later ∧
      last.ComesTo lax f here later

/-- Either the runs are the same, or they are until the stricter one fails with a finding. -/
inductive Answer.Parts (lax : Level) : List Answer → List Answer → Prop
  | same (strict : List Answer) : Parts lax strict (strict.map (·.atLevel lax))
  | found (agreed : List Answer) (last : Answer) {later : List Answer} {here : Answer} {f : Finding}
      (hlast : last.fault? = some f.fault) (h : last.ComesTo lax f here later) :
      Parts lax (agreed ++ [last]) (agreed.map (·.atLevel lax) ++ here :: later)

namespace Answer

variable {lax : Level} {strict lenient : List Answer}

theorem Parts.cons (h : Parts lax strict lenient) (a : Answer) :
    Parts lax (a :: strict) (a.atLevel lax :: lenient) := by
  cases h with
  | same => exact .same (a :: strict)
  | found agreed last hlast h => exact .found (a :: agreed) last hlast h

theorem Parts.agree (h : Parts lax strict lenient) : Agree lax strict lenient := by
  cases h with
  | same =>
    refine ⟨fun _ => rfl, fun _ _ _ _ _ _ => rfl, fun agreed last f hstrict _ => ?_⟩
    refine ⟨last.atLevel lax, [], ?_, .fails rfl rfl⟩
    rw [hstrict, List.map_append]
    rfl
  | @found agreed last later here f hlast h =>
    have hunique {agreed' : List Answer} {last' : Answer}
        (heq : agreed ++ [last] = agreed' ++ [last']) : agreed = agreed' ∧ last = last' :=
      (List.append_inj' heq rfl).imp_right List.singleton_inj.1
    refine ⟨fun hok => ?_, fun agreed' last' fault heq hfault hnone => ?_,
      fun agreed' last' f' heq hlast' => ?_⟩
    · rw [hok last (List.mem_append_right _ List.mem_cons_self)] at hlast
      cases hlast
    · obtain ⟨rfl, rfl⟩ := hunique heq
      exact absurd (Option.some.inj (hfault.symm.trans hlast)) (hnone f)
    · obtain ⟨rfl, rfl⟩ := hunique heq
      obtain rfl : f' = f := by
        have hfault := Option.some.inj (hlast'.symm.trans hlast)
        rw [← Option.some_inj, ← Finding.ofFault?_fault, hfault, Finding.ofFault?_fault]
      exact ⟨here, later, rfl, h⟩

end Answer

theorem Decoder.answers_succ [Memory] (n : Nat) (d : Decoder) (pieces : List Bytes) :
    d.answers (n + 1) pieces = d.decode pieces.head? ::
      match (d.decode pieces.head?).value with
      | (_, .error _) => []
      | (d', .ok out) => d'.answers n (stillToOffer out.consumed pieces) := rfl

/-- **Two runs over the same input**, by what their first call comes to. -/
theorem Decoder.parts_answers [Memory] {lax strict : Level} (hle : lax ≤ strict) {d : Decoder}
    (hoffset : d.input.bitOffset ≤ 8 * d.input.length) (n : Nat) (pieces : List Bytes) :
    Answer.Parts lax ((d.atLevel strict).answers n pieces) ((d.atLevel lax).answers n pieces) := by
  induction n generalizing d pieces with
  | zero => exact .same []
  | succ n ih =>
    -- a call that does the same at both levels, and whatever follows it
    have hsame {a : Decoder × Except Fault Output} {log : List Record}
        (hstrict : (d.atLevel strict).decode pieces.head? = ⟨placed strict a, log⟩)
        (hlax : (d.atLevel lax).decode pieces.head? = ⟨placed lax a, log⟩) :
        Answer.Parts lax ((d.atLevel strict).answers (n + 1) pieces)
          ((d.atLevel lax).answers (n + 1) pieces) := by
      have hoffset' := bitOffset_le_decode (d := d.atLevel lax) hoffset pieces.head?
      rw [answers_succ, answers_succ, hstrict, hlax]
      rw [hlax] at hoffset'
      obtain ⟨d', fault | out⟩ := a
      · exact .same [_]
      · exact (ih hoffset' _).cons _
    cases weighed_decode hoffset pieces.head? with
    | plain _ _ hx => exact hsame (hx strict) (hx lax)
    | finds f a b before after hstrict hlax hbefore hafter hfound =>
      by_cases hwarn : Level.warn ≤ lax
      · exact hsame (hstrict strict (Nat.le_trans hwarn hle)) (hstrict lax hwarn)
      by_cases hwarn' : Level.warn ≤ strict
      · have honly := warnings_found hbefore hafter f
        obtain ⟨hfails, hgoesOn⟩ := hfound
        rw [answers_succ, answers_succ, hstrict strict hwarn', hlax lax hwarn]
        obtain ⟨d', outcome⟩ := a
        cases hfails
        refine .found [] ⟨_, before⟩ rfl ?_
        cases hgoesOn with
        | version | missingQuit => exact .goesOn rfl rfl honly
        | tooLarge => exact .tooLarge rfl rfl rfl honly rfl
      · exact hsame (hlax strict hwarn') (hlax lax hwarn)

/-! ## How often a finding is met -/

namespace Answer

theorem findings_of_unfound {a : Decoder × Except Fault Output} {log : List Record}
    (hlog : warnings log = []) (ha : Decoder.Unfound a) (level : Level) :
    findings ⟨Decoder.placed level a, log⟩ = [] := by
  obtain ⟨d', fault | out⟩ := a
  · have hnone : Finding.ofFault? fault = none := by
      cases hf : Finding.ofFault? fault with
      | none => rfl
      | some f => exact absurd (congrArg Except.error (Finding.fault_of_ofFault? hf)) (ha f)
    rw [findings, hlog]
    exact congrArg (fun found => (found.map Finding.record).toList) hnone
  · rw [findings, hlog]
    rfl

end Answer

namespace Decoder

variable {d : Decoder}

/-- A decoder whose stream has ended has nothing to find. -/
theorem findings_of_finished [Memory] (hc : d.condition = .finished) (n : Nat)
    (pieces : List Bytes) :
    (d.answers n pieces).flatMap Answer.findings = [] := by
  induction n generalizing pieces with
  | zero => rfl
  | succ n ih =>
    have hdecode : d.decode pieces.head? =
        pure (d, .ok ⟨(pieces.head?.getD []).length, .finished⟩) := by
      rw [decode, hc]
    rw [answers_succ, hdecode, List.flatMap_cons]
    exact ih _

/-- The findings that a decoder may still meet. -/
structure MayMeet (d : Decoder) (fs : List Finding) : Prop where
  /-- At most the version of the stream, and then its end. -/
  once : ∃ version bitsLeft, fs.Sublist [.unexpectedVersion version, .missingQuit bitsLeft]
  /-- Behind the header there is but the end. -/
  headed : d.stream.isSome = true → ∃ bitsLeft, fs.Sublist [.missingQuit bitsLeft]

theorem mayMeet_nil (d : Decoder) : d.MayMeet [] :=
  ⟨⟨0, 0, List.nil_sublist _⟩, fun _ => ⟨0, List.nil_sublist _⟩⟩

theorem mayMeet_version (hs : d.stream = none) {version : UInt8} {bitsLeft : Nat}
    {fs : List Finding} (hfs : fs.Sublist [.missingQuit bitsLeft]) :
    d.MayMeet (.unexpectedVersion version :: fs) :=
  ⟨⟨version, bitsLeft, hfs.cons_cons _⟩, fun hsome => by rw [hs] at hsome; cases hsome⟩

theorem mayMeet_missingQuit (d : Decoder) (bitsLeft : Nat) : d.MayMeet [.missingQuit bitsLeft] :=
  ⟨⟨0, bitsLeft, .cons _ (.refl _)⟩, fun _ => ⟨bitsLeft, .refl _⟩⟩

/-- No call forgets a header. -/
theorem Calls.isSome_stream [Memory] {offered : Option Bytes}
    {answer : Decoder × Except Fault Output}
    (h : d.Calls offered answer) (hs : d.stream.isSome = true) :
    answer.1.stream.isSome = true := by
  rcases h.info?_eq with hnone | heq
  · rw [info?, Option.map_eq_none_iff] at hnone
    rw [hnone] at hs
    cases hs
  · rw [info?, info?] at heq
    rw [← Option.isSome_map (f := Stream.info), heq, Option.isSome_map]
    exact hs

/-- **A run meets each finding once at most**, by what its first call comes to. -/
theorem mayMeet_answers [Memory] (hoffset : d.input.bitOffset ≤ 8 * d.input.length) (n : Nat)
    (pieces : List Bytes) :
    ∃ fs, d.MayMeet fs ∧
      (d.answers n pieces).flatMap Answer.findings = fs.map Finding.record := by
  induction n generalizing d pieces with
  | zero => exact ⟨[], d.mayMeet_nil, rfl⟩
  | succ n ih =>
    have hoffset' := bitOffset_le_decode hoffset pieces.head?
    have hcalls := calls_decode (fun _ => hoffset) pieces.head?
    rw [answers_succ, List.flatMap_cons]
    cases weighed_decode hoffset pieces.head? with
    | plain a log hx hlog ha =>
      have hx : d.decode pieces.head? = ⟨placed d.failLevel a, log⟩ := hx d.failLevel
      rw [hx] at hoffset' hcalls ⊢
      rw [Answer.findings_of_unfound hlog ha, List.nil_append]
      obtain ⟨d', fault | out⟩ := a
      · exact ⟨[], d.mayMeet_nil, rfl⟩
      · obtain ⟨fs, hfs, hfindings⟩ := ih hoffset' (stillToOffer out.consumed pieces)
        exact ⟨fs, ⟨hfs.once, fun hs => hfs.headed (hcalls.isSome_stream hs)⟩, hfindings⟩
    | finds f a b before after hstrict hlax hbefore hafter hfound =>
      obtain ⟨hfails, hgoesOn⟩ := hfound
      by_cases hwarn : Level.warn ≤ d.failLevel
      · -- a strict reader fails with it
        have hx : d.decode pieces.head? = ⟨placed d.failLevel a, before⟩ := hstrict _ hwarn
        obtain ⟨d', outcome⟩ := a
        cases hfails
        have hfindings : Answer.findings ⟨placed d.failLevel (d', .error f.fault), before⟩ =
            [f.record] := by
          rw [Answer.findings, hbefore]
          simp [Answer.fault?, placed]
        rw [hx, hfindings]
        refine ⟨[f], ?_, rfl⟩
        cases hgoesOn with
        | version hs | tooLarge hs =>
          exact mayMeet_version hs (List.nil_sublist [Finding.missingQuit 0])
        | missingQuit => exact d.mayMeet_missingQuit _
      · -- a lax one leaves a warning
        have hx : d.decode pieces.head? =
            ⟨placed d.failLevel b, before ++ f.record :: after⟩ := hlax _ hwarn
        have hlog := warnings_found hbefore hafter f
        rw [hx] at hoffset' ⊢
        cases hgoesOn with
        | @version version d' out hs hs' =>
          obtain ⟨fs, hfs, hfindings⟩ := ih hoffset' (stillToOffer out.consumed pieces)
          obtain ⟨bitsLeft, hsub⟩ := hfs.headed hs'
          refine ⟨.unexpectedVersion version :: fs, mayMeet_version hs hsub, ?_⟩
          rw [Answer.findings, hlog]
          exact congrArg (_ :: ·) hfindings
        | @tooLarge version purpose elements d' hs =>
          refine ⟨[.unexpectedVersion version],
            mayMeet_version hs (List.nil_sublist [Finding.missingQuit 0]), ?_⟩
          rw [Answer.findings, hlog]
          rfl
        | @missingQuit bitsLeft d' out hs hc' =>
          refine ⟨[.missingQuit bitsLeft], d.mayMeet_missingQuit bitsLeft, ?_⟩
          have hnone := findings_of_finished (d := d'.atLevel d.failLevel) hc' n
            (stillToOffer out.consumed pieces)
          rw [Answer.findings, hlog]
          exact congrArg (_ :: ·) hnone

end Decoder

/-- The findings of a run, raised or logged, are at most the version of its stream and then its
end. -/
def FoundOnce (answers : List Answer) : Prop :=
  ∃ version bitsLeft fs, List.Sublist fs [.unexpectedVersion version, .missingQuit bitsLeft] ∧
    answers.flatMap Answer.findings = fs.map Finding.record

/-- **The fail level decides nothing but what becomes of findings.**  Runs over the same pieces of
input at two levels are the same as long as the stricter one does not fail with a finding; where it
does, the laxer one either fails as well, or logs the finding and goes on as far as there is room
for the stream.  No run meets the same finding twice, however often it reads the header. -/
theorem failLevel_decides_findings [Memory] (frameSize : Nat) {lax strict : Level}
    (hle : lax ≤ strict) (pieces : List Bytes) (n : Nat) :
    Answer.Agree lax ((Decoder.start frameSize strict).answers n pieces)
        ((Decoder.start frameSize lax).answers n pieces) ∧
      ∀ level, FoundOnce ((Decoder.start frameSize level).answers n pieces) := by
  refine ⟨(Decoder.parts_answers (d := Decoder.start frameSize strict) hle (Nat.zero_le _) n
    pieces).agree, fun level => ?_⟩
  obtain ⟨fs, ⟨⟨version, bitsLeft, hsub⟩, -⟩, hfindings⟩ :=
    Decoder.mayMeet_answers (d := Decoder.start frameSize level) (Nat.zero_le _) n pieces
  exact ⟨version, bitsLeft, fs, hsub, hfindings⟩

/-- A machine with room for less than 700 million numbers at a time. -/
local instance tightMemory : Memory where
  grants _ elements := elements < 700000000
  grantsBuffer bytes := bytes < 700000000
  grants_frame n hn := decide_eq_true (by omega)

/-- A header of version 3 whose channels keep more means than there is room for. -/
def roomyHeader : Bytes :=
  [0x61, 0x6a, 0x6b, 0x67, 0x03, 0xfb, 0x18, 0xc8, 0x0d, 0xff, 0xff, 0xff, 0xfa, 0x4a, 0xb2,
    0xa5, 0x49, 0xa3, 0x51, 0xa7, 0x90, 0x08, 0x04, 0x02, 0xaf, 0x41, 0xab, 0x51, 0x6c, 0xd6,
    0xdb, 0xa4, 0x82, 0x21, 0x00, 0x80, 0x40, 0x20, 0x30, 0x08, 0x0c, 0x02, 0x89, 0xac, 0x80,
    0x40, 0x31, 0x15, 0x88, 0x0c, 0x02, 0x05, 0x00, 0x88, 0x40, 0x2c, 0x96, 0x1b, 0xa5, 0x86,
    0x11, 0x00, 0x80, 0x40, 0x00]

/-- A strict reader refuses the version of this header, a lax one gets to its means. -/
theorem fault?_roomyHeader :
    ((Decoder.start 1024 .warn).answers 2 [roomyHeader]).map Answer.fault? =
        [none, some (.header (.unexpectedVersion 3))] ∧
      ((Decoder.start 1024 .error).answers 2 [roomyHeader]).map Answer.fault? =
        [none, some (.storage (.allocation "mean history" 1073741822))] := by
  decide +kernel

theorem failLevel_decides_findings_roomyHeader :
    Level.error ≤ Level.warn ∧
      Answer.Agree .error ((Decoder.start 1024 .warn).answers 2 [roomyHeader])
        ((Decoder.start 1024 .error).answers 2 [roomyHeader]) ∧
      ∀ level, FoundOnce ((Decoder.start 1024 level).answers 2 [roomyHeader]) :=
  ⟨by decide, failLevel_decides_findings 1024 (by decide) [roomyHeader] 2⟩

/-- **A lax reader does not always go on from a finding, or fail with it.**  It may fail at the same
call for another reason. -/
theorem lenient_run_fails_otherwise :
    ¬∀ (frameSize : Nat) (lax strict : Level) (pieces : List Bytes) (n : Nat)
      (agreed : List Answer) (last : Answer) (f : Finding), lax ≤ strict →
      (Decoder.start frameSize strict).answers n pieces = agreed ++ [last] →
      last.fault? = some f.fault →
      ∃ here later, (Decoder.start frameSize lax).answers n pieces =
          agreed.map (·.atLevel lax) ++ here :: later ∧
        (here.fault? = some f.fault ∨ here.fault? = none) := by
  intro hlaw
  obtain ⟨hstrict, hlax⟩ := fault?_roomyHeader
  obtain ⟨a, answers, hanswers, -, hstrict⟩ := List.map_eq_cons_iff.1 hstrict
  obtain ⟨last, answers, rfl, hlast, hstrict⟩ := List.map_eq_cons_iff.1 hstrict
  rw [List.map_eq_nil_iff.1 hstrict] at hanswers
  obtain ⟨here, later, heq, hhere⟩ := hlaw 1024 .error .warn [roomyHeader] 2 [a] last
    (.unexpectedVersion 3) (by decide) hanswers hlast
  rw [heq] at hlax
  obtain ⟨-, hlax⟩ := List.cons.inj hlax
  obtain ⟨hfault, -⟩ := List.cons.inj hlax
  rw [hfault] at hhere
  rcases hhere with hhere | hhere <;> cases hhere

end LosslessAudio
