import LosslessAudio.Proofs.Codes
import LosslessAudio.Stream.Body

/-!
# Reads that know where they end

Input arrives in pieces, and a command that is cut short is read again once there is more of it.
What makes this harmless is that no read of the format looks at a bit behind those it passes over.
This file says so once and for all.

* `SelfDelimiting read` — if `read` succeeds, it succeeds with the same answer and passes the same
  number of bits wherever these bits stand and whatever follows them; if it fails, and not because
  the bits ran out, it fails for the same cause there.
* `SelfDelimiting.bind` and its companions, by which the property goes up from the single bits over
  the codes to the header (`StreamInfo.selfDelimiting_read`) and to whole commands
  (`selfDelimiting_carryOut`).

Causes are compared up to the place in the buffered input that some of them name: that place is
counted from the start of the buffer, so it is the one thing that does depend on the pieces.
-/

set_option autoImplicit false

namespace LosslessAudio

/-! ## Causes without their place -/

/-- Causes of failure, looked at without the place in the buffered input that they name. -/
class Cause (ε : Type) where
  /-- Whether the bits ran out, so that more input may mend the failure. -/
  isOverread : ε → Bool
  /-- The cause without the place. -/
  unplaced : ε → ε
  isOverread_unplaced : ∀ e, isOverread (unplaced e) = isOverread e

/-- A failed read without the bit position that it names. -/
def ReadFault.unplaced : ReadFault → ReadFault
  | .riceParameter parameter _ => .riceParameter parameter 0
  | fault => fault

/-- A fault without what it says about the buffered input: the bit position of a Rice parameter
that is too large, and the number of bytes that were pending when the input ended. -/
def Fault.unplaced : Fault → Fault
  | .read fault => .read fault.unplaced
  | .storage (.truncated _) => .storage (.truncated 0)
  | fault => fault

instance : Cause ReadFault where
  isOverread := ReadFault.isOverread
  unplaced := ReadFault.unplaced
  isOverread_unplaced e := by cases e <;> rfl

instance : Cause Fault where
  isOverread := Fault.isOverread
  unplaced := Fault.unplaced
  isOverread_unplaced e := by
    cases e with
    | read e => cases e <;> rfl
    | storage e => cases e <;> rfl
    | _ => rfl

/-- Whether more input may mend a failure has nothing to do with its place. -/
theorem isOverread_of_unplaced_eq {ε : Type} [Cause ε] {e e' : ε}
    (h : Cause.unplaced e = Cause.unplaced e') : Cause.isOverread e = Cause.isOverread e' := by
  rw [← Cause.isOverread_unplaced e, h, Cause.isOverread_unplaced]

/-! ## The property and how it goes up -/

/-- The bits of `r` at another place, with more bits behind them. -/
def BitReader.within (r : BitReader) (position : Nat) (tail : List Bool) : BitReader :=
  ⟨position, r.rest ++ tail⟩

@[simp] theorem BitReader.rest_within (r : BitReader) (position : Nat) (tail : List Bool) :
    (r.within position tail).rest = r.rest ++ tail := rfl

theorem BitReader.Passes.position_eq {r r' : BitReader} {n : Nat} (h : r.Passes n r') :
    r'.position = r.position + n := by
  obtain ⟨-, rfl⟩ := h
  rfl

variable {ε α β : Type} [Cause ε]

/-- A read that looks at no bit behind those it passes over. -/
structure SelfDelimiting (read : BitReader → Except ε (α × BitReader)) : Prop where
  /-- Success does not depend on the place, nor on the bits that follow. -/
  reads : ∀ {r r' : BitReader} {a : α}, read r = .ok (a, r') → ∃ n, r.Passes n r' ∧
    Reads read (r.rest.take n) a
  /-- Nor does a failure that more bits cannot mend. -/
  error : ∀ {r : BitReader} {e : ε}, read r = .error e → Cause.isOverread e = false →
    ∀ p tail, ∃ e', read (r.within p tail) = .error e' ∧ Cause.unplaced e' = Cause.unplaced e
  /-- At the same place it is the very same failure. -/
  persists : ∀ {r : BitReader} {e : ε}, read r = .error e → Cause.isOverread e = false →
    ∀ tail, read (r.within r.position tail) = .error e

namespace SelfDelimiting

/-- More bits behind those that are there change nothing. -/
theorem ok {read : BitReader → Except ε (α × BitReader)} (hread : SelfDelimiting read)
    {r r' : BitReader} {a : α} (h : read r = .ok (a, r')) : ∃ n, r.Passes n r' ∧
      ∀ p tail, read (r.within p tail) = .ok (a, r'.within (p + n) tail) := by
  obtain ⟨n, hn, hreads⟩ := hread.reads h
  refine ⟨n, hn, fun p tail => ?_⟩
  obtain ⟨hle, rfl⟩ := hn
  have hbits : r.rest ++ tail = r.rest.take n ++ (r.rest.drop n ++ tail) := by
    rw [← List.append_assoc, List.take_append_drop]
  rw [BitReader.within, hbits, hreads p, List.length_take_of_le hle]
  rfl

/-- An answer that is known needs no bits. -/
theorem pure (a : α) : SelfDelimiting (ε := ε) fun r => .ok (a, r) where
  reads h := by cases h; exact ⟨0, .refl _, .pure a⟩
  error h := by cases h
  persists h := by cases h

/-- A refusal, which may name the place where it happens. -/
theorem refuse {e : BitReader → ε} (he : ∀ r r', Cause.unplaced (e r) = Cause.unplaced (e r'))
    (hplace : ∀ r tail, e (r.within r.position tail) = e r) :
    SelfDelimiting (α := α) fun r => .error (e r) where
  reads h := by cases h
  error h _ _ _ := by cases h; exact ⟨_, rfl, he _ _⟩
  persists h _ tail := by cases h; rw [hplace]

/-- A refusal that names no place. -/
theorem throw (e : ε) : SelfDelimiting (α := α) fun _ => .error e :=
  refuse (fun _ _ => rfl) fun _ _ => rfl

/-- One read after the other. -/
theorem bind {read : BitReader → Except ε (α × BitReader)}
    {next : α × BitReader → Except ε (β × BitReader)} (hread : SelfDelimiting read)
    (hnext : ∀ a, SelfDelimiting fun r => next (a, r)) :
    SelfDelimiting fun r => read r >>= next where
  reads {r r'' b} h := by
    obtain ⟨⟨a, r'⟩, ha, hb⟩ := bind_eq_ok.1 h
    obtain ⟨m, hm, hfirst⟩ := hread.reads ha
    obtain ⟨n, hn, hsecond⟩ := (hnext a).reads hb
    refine ⟨m + n, hm.trans hn, ?_⟩
    obtain ⟨-, rfl⟩ := hm
    rw [List.take_add]
    exact hfirst.bind hsecond
  error {r e} h he p tail := by
    cases hr : read r with
    | error e' =>
      rw [hr] at h
      cases h
      obtain ⟨e', he', hu⟩ := hread.error hr he p tail
      exact ⟨e', by rw [he']; rfl, hu⟩
    | ok a =>
      rw [hr] at h
      obtain ⟨m, -, hr⟩ := hread.ok hr
      obtain ⟨e', he', hu⟩ := (hnext a.1).error h he (p + m) tail
      exact ⟨e', by rw [hr p tail]; exact he', hu⟩
  persists {r e} h he tail := by
    cases hr : read r with
    | error e' =>
      rw [hr] at h
      cases h
      rw [hread.persists hr he tail]
      rfl
    | ok a =>
      rw [hr] at h
      obtain ⟨m, hm, hr⟩ := hread.ok hr
      rw [hr r.position tail, ok_bind, ← hm.position_eq]
      exact (hnext a.1).persists h he tail

/-- A check of what was read before. -/
theorem check {condition : Prop} {dec : BitReader → Decidable condition} {cause : ε}
    {read : BitReader → Except ε (α × BitReader)} (hread : SelfDelimiting read) :
    SelfDelimiting fun r => @ensure ε condition (dec r) cause >>= fun _ => read r := by
  by_cases hc : condition
  · simpa [ensure, hc, Bind.bind, Except.bind] using hread
  · simpa [ensure, hc, Bind.bind, Except.bind] using throw cause

/-- What becomes of the answer does not matter. -/
theorem map {read : BitReader → Except ε (α × BitReader)} (hread : SelfDelimiting read)
    (f : α → β) : SelfDelimiting fun r => read r >>= fun x => .ok (f x.1, x.2) :=
  hread.bind fun a => pure (f a)

/-- Failure does not depend on the place either. -/
theorem error_within {read : BitReader → Except ε (α × BitReader)} (hread : SelfDelimiting read)
    {r : BitReader} {e : ε} (h : read r = .error e) (p : Nat) :
    ∃ e', read (r.within p []) = .error e' ∧ Cause.isOverread e' = Cause.isOverread e ∧
      (Cause.isOverread e = false → Cause.unplaced e' = Cause.unplaced e) := by
  have back : (r.within p []).within r.position [] = r := by simp [BitReader.within]
  cases he : Cause.isOverread e with
  | false =>
    obtain ⟨e', he', hu⟩ := hread.error h he p []
    exact ⟨e', he', by rw [isOverread_of_unplaced_eq hu, he], fun _ => hu⟩
  | true =>
    cases hr : read (r.within p []) with
    | ok a =>
      obtain ⟨n, -, hok⟩ := hread.ok hr
      rw [← back, hok] at h
      cases h
    | error e' =>
      refine ⟨e', rfl, ?_, fun h => by cases h⟩
      cases he' : Cause.isOverread e' with
      | true => rfl
      | false =>
        obtain ⟨e'', he'', hu⟩ := hread.error hr he' r.position []
        rw [back, h] at he''
        cases he''
        rw [← he', ← isOverread_of_unplaced_eq hu, he]

theorem lift_read_ok (a : α) :
    (liftM (Except.ok a : Except ReadFault α) : Except Fault α) = .ok a := rfl

theorem lift_read_bind (x : Except ReadFault α) (f : α → Except ReadFault β) :
    (liftM (x >>= f) : Except Fault β) = liftM x >>= fun a => liftM (f a) := by
  cases x <;> rfl

/-- A read inside a computation whose failures are faults of the stream. -/
theorem lift {read : BitReader → Except ReadFault (α × BitReader)} (hread : SelfDelimiting read) :
    SelfDelimiting fun r => (liftM (read r) : Except Fault (α × BitReader)) where
  reads h := by
    obtain ⟨n, hn, hreads⟩ := hread.reads (lift_read_eq_ok.1 h)
    exact ⟨n, hn, hreads.lift⟩
  error {r e} h he p tail := by
    cases hr : read r with
    | ok a => rw [hr] at h; cases h
    | error cause =>
      rw [hr] at h
      cases h
      obtain ⟨cause', hc, hu⟩ := hread.error hr he p tail
      exact ⟨.read cause', by rw [hc]; rfl, congrArg Fault.read hu⟩
  persists {r e} h he tail := by
    obtain ⟨cause, hcause, rfl⟩ := lift_read_eq_error.1 h
    exact lift_read_eq_error.2 ⟨cause, hread.persists hcause he tail, rfl⟩

end SelfDelimiting

/-! ## Bits and codes -/

namespace BitReader

open SelfDelimiting

/-- The plain reads fail only where the bits run out. -/
theorem eq_pastEnd_of_bits {r : BitReader} {n : Nat} {e : ReadFault} (h : r.bits n = .error e) :
    e = .pastEnd := by
  rw [bits] at h
  split at h <;> cases h
  rfl

@[inherit_doc eq_pastEnd_of_bits]
theorem eq_pastEnd_of_unary {r : BitReader} {e : ReadFault} (h : r.unary = .error e) :
    e = .pastEnd := by
  rw [unary] at h
  split at h <;> cases h
  rfl

/-- More input may mend such a failure. -/
theorem isOverread_of_bits {r : BitReader} {n : Nat} {e : ReadFault} (h : r.bits n = .error e) :
    e.isOverread = true := by
  rw [eq_pastEnd_of_bits h]
  rfl

@[inherit_doc isOverread_of_bits]
theorem isOverread_of_skip {r : BitReader} {n : Nat} {e : ReadFault}
    (h : (r.skip n >>= fun r => .ok ((), r)) = .error e) : e.isOverread = true := by
  rw [skip] at h
  split at h <;> cases h
  rfl

@[inherit_doc isOverread_of_bits]
theorem isOverread_of_unary {r : BitReader} {e : ReadFault} (h : r.unary = .error e) :
    e.isOverread = true := by
  rw [eq_pastEnd_of_unary h]
  rfl

theorem take_take_append {r : BitReader} {n : Nat} (hle : n ≤ r.available) (rest : List Bool) :
    (r.rest.take n ++ rest).take n = r.rest.take n :=
  List.take_left' (List.length_take_of_le hle)

theorem drop_take_append {r : BitReader} {n : Nat} (hle : n ≤ r.available) (rest : List Bool) :
    (r.rest.take n ++ rest).drop n = rest :=
  List.drop_left' (List.length_take_of_le hle)

theorem selfDelimiting_bits (n : Nat) : SelfDelimiting fun r => r.bits n where
  reads {r r' v} h := by
    have hn := passes_of_bits h
    refine ⟨n, hn, fun p rest => ?_⟩
    have hlength : (r.rest.take n).length = n := List.length_take_of_le hn.1
    rw [bits, if_pos hlength] at h
    cases h
    dsimp only
    rw [bits]
    dsimp only
    rw [take_take_append hn.1, if_pos hlength, advance, drop_take_append hn.1, hlength]
  error h he := absurd (isOverread_of_bits h) (Bool.eq_false_iff.1 he)
  persists h he := absurd (isOverread_of_bits h) (Bool.eq_false_iff.1 he)

theorem selfDelimiting_skip (n : Nat) :
    SelfDelimiting fun r => r.skip n >>= fun r => .ok ((), r) where
  reads {r r' v} h := by
    obtain ⟨r₁, h, h'⟩ := bind_eq_ok.1 h
    cases h'
    have hn := passes_of_skip h
    refine ⟨n, hn, fun p rest => ?_⟩
    have hlength : (r.rest.take n).length = n := List.length_take_of_le hn.1
    dsimp only
    rw [skip, take_take_append hn.1, if_pos hlength, ok_bind, advance, drop_take_append hn.1,
      hlength]
  error h he := absurd (isOverread_of_skip h) (Bool.eq_false_iff.1 he)
  persists h he := absurd (isOverread_of_skip h) (Bool.eq_false_iff.1 he)

/-- The bits in front of the first one are zeros. -/
theorem eq_of_dropWhile {bits rest : List Bool} {b : Bool} (h : bits.dropWhile (!·) = b :: rest) :
    bits = List.replicate (bits.takeWhile (!·)).length false ++ true :: rest := by
  induction bits with
  | nil => cases h
  | cons x bits ih =>
    cases x with
    | false =>
      have hrest := ih h
      simp only [List.takeWhile_cons, Bool.not_false, if_true, List.length_cons,
        List.replicate_succ, List.cons_append, List.cons.injEq, true_and]
      exact hrest
    | true =>
      cases h
      rfl

/-- The bits of a quotient are that many zeros and a one. -/
theorem rest_of_unary {r r' : BitReader} {q : Nat} (h : r.unary = .ok (q, r')) :
    r.rest = List.replicate q false ++ [true] ++ r'.rest := by
  rw [unary] at h
  cases hd : r.rest.dropWhile (!·) with
  | nil => simp only [hd] at h; cases h
  | cons b rest =>
    simp only [hd] at h
    cases h
    rw [List.append_assoc]
    exact eq_of_dropWhile hd

/-- A quotient ends with its first one, whatever follows. -/
theorem selfDelimiting_unary : SelfDelimiting unary where
  reads {r r' q} h := by
    refine ⟨q + 1, passes_of_unary h, ?_⟩
    have hlength : (List.replicate q false ++ [true]).length = q + 1 := by simp
    rw [rest_of_unary h, List.take_left' hlength]
    exact reads_unary q
  error h he := absurd (isOverread_of_unary h) (Bool.eq_false_iff.1 he)
  persists h he := absurd (isOverread_of_unary h) (Bool.eq_false_iff.1 he)

/-- A Rice code is its quotient and as many bits as its parameter says. -/
theorem selfDelimiting_rice (k : Nat) : SelfDelimiting fun r => r.rice k := by
  by_cases hk : Rice.maxParameter < k
  · simp only [rice, if_pos hk]
    exact refuse (fun _ _ => rfl) fun _ _ => rfl
  · simp only [rice_of_le (Nat.not_lt.1 hk)]
    exact selfDelimiting_unary.bind fun q => (selfDelimiting_bits k).map (Rice.value k q)

theorem selfDelimiting_signedRice (k : Int32) : SelfDelimiting fun r => r.signedRice k :=
  (selfDelimiting_rice _).map Rice.unfold

/-- What the number of bits depends on was read before. -/
theorem selfDelimiting_adaptive (version : UInt8) (hint : Nat) :
    SelfDelimiting fun r => r.adaptive version hint := by
  by_cases hv : version = 0
  · simp only [adaptive, if_pos hv]
    exact selfDelimiting_rice hint
  · simp only [adaptive, if_neg hv]
    exact (selfDelimiting_rice _).bind fun k => selfDelimiting_rice k.toNat

theorem selfDelimiting_riceMany (k n : Nat) : SelfDelimiting fun r => r.riceMany k n := by
  suffices ∀ read, SelfDelimiting fun r => riceMany.go k r read n from this []
  induction n with
  | zero => exact fun read => SelfDelimiting.pure read.reverse
  | succ n ih => exact fun read => (selfDelimiting_rice k).bind fun u => ih (u :: read)

theorem selfDelimiting_signedRiceMany (k : Int32) (n : Nat) :
    SelfDelimiting fun r => r.signedRiceMany k n := by
  suffices ∀ read, SelfDelimiting fun r => signedRiceMany.go k r read n from this []
  induction n with
  | zero => exact fun read => SelfDelimiting.pure read.reverse
  | succ n ih => exact fun read => (selfDelimiting_signedRice k).bind fun x => ih (x :: read)

end BitReader

/-! ## Blocks of samples -/

open SelfDelimiting

namespace Predictor

theorem selfDelimiting_read (c : Command) (kept : Nat) :
    SelfDelimiting fun r => Predictor.read c kept r := by
  cases hc : c.fixedOrder? with
  | some order =>
    simp only [Predictor.read, hc]
    exact SelfDelimiting.pure _
  | none =>
    simp only [Predictor.read, hc]
    refine (BitReader.selfDelimiting_rice _).lift.bind fun order => ?_
    dsimp only
    apply check
    exact (BitReader.selfDelimiting_signedRiceMany _ _).lift.map Predictor.linear

theorem selfDelimiting_extend (p : Predictor) (base parameter : Int32) (past : List Int32)
    (n : Nat) : SelfDelimiting fun r => p.extend base parameter r past n := by
  induction n generalizing past with
  | zero => exact SelfDelimiting.pure past
  | succ n ih => exact (BitReader.selfDelimiting_signedRice parameter).bind fun _ => ih _

theorem selfDelimiting_decodeBlock (p : Predictor) (h : ChannelHistory) (blockSize : Nat)
    (parameter offset bias : Int32) :
    SelfDelimiting fun r => p.decodeBlock h blockSize parameter offset bias r :=
  (selfDelimiting_extend p _ parameter _ blockSize).bind fun _ => SelfDelimiting.pure _

end Predictor

namespace Stream

theorem selfDelimiting_readResidualParameter (version : UInt8) :
    SelfDelimiting fun r => readResidualParameter version r :=
  (BitReader.selfDelimiting_rice _).bind fun _ => SelfDelimiting.pure _

theorem selfDelimiting_readBlock (s : Stream) (c : Command) (h : ChannelHistory) :
    SelfDelimiting fun r => s.readBlock c h r := by
  by_cases hc : c = .zero
  · simp only [readBlock, if_pos hc]
    exact SelfDelimiting.pure _
  · simp only [readBlock, if_neg hc]
    refine (selfDelimiting_readResidualParameter _).lift.bind fun parameter => ?_
    dsimp only
    refine (Predictor.selfDelimiting_read c _).bind fun predictor => ?_
    exact (predictor.selfDelimiting_decodeBlock h _ _ _ _).lift

theorem selfDelimiting_decodeChannel [Memory] (s : Stream) (c : Command) :
    SelfDelimiting fun r => s.decodeChannel c r >>= fun x => .ok ((x.1, x.2.1), x.2.2) := by
  simp only [decodeChannel, bind_assoc]
  refine (s.selfDelimiting_readBlock c s.round.current).bind fun h => ?_
  dsimp only
  cases s.blockEffect (s.round.next (s.settleBlock h)) with
  | error e => exact throw e
  | ok effect =>
    simp only [ok_bind, pure_bind]
    exact SelfDelimiting.pure _

/-! ## Other commands -/

theorem selfDelimiting_skipVerbatim : SelfDelimiting skipVerbatim := by
  refine (BitReader.selfDelimiting_rice StreamInfo.verbatimLengthParameter).bind fun length => ?_
  dsimp only
  exact (BitReader.selfDelimiting_riceMany _ _).map fun _ => length.toNat

theorem selfDelimiting_readBitshift : SelfDelimiting readBitshift := by
  refine (BitReader.selfDelimiting_rice bitshiftParameter).lift.bind fun bitshift => ?_
  dsimp only
  apply check
  exact SelfDelimiting.pure bitshift.toNat

theorem selfDelimiting_readBlockSize (s : Stream) :
    SelfDelimiting fun r => s.readBlockSize r := by
  simp only [readBlockSize]
  refine (BitReader.selfDelimiting_adaptive _ _).lift.bind fun blockSize => ?_
  dsimp only
  apply check
  apply check
  exact SelfDelimiting.pure blockSize.toNat

theorem selfDelimiting_execute [Memory] (s : Stream) (c : Command) :
    SelfDelimiting fun r => (s.execute c r).outcome >>= fun x => .ok ((x.1, x.2.1), x.2.2) := by
  by_cases hc : c.isAudio = true
  · simp only [outcome_execute_of_isAudio hc]
    exact s.selfDelimiting_decodeChannel c
  cases c
  case verbatim =>
    simp only [outcome_execute_verbatim, bind_assoc, ok_bind]
    exact selfDelimiting_skipVerbatim.lift.map fun _ => (Command.Effect.silent, s)
  case bitshift =>
    simp only [outcome_execute_bitshift, bind_assoc, ok_bind]
    exact selfDelimiting_readBitshift.map fun bitshift =>
      (Command.Effect.silent, { s with bitshift })
  case blockSize =>
    simp only [outcome_execute_blockSize, bind_assoc, ok_bind]
    exact s.selfDelimiting_readBlockSize.map fun blockSize =>
      (Command.Effect.pause, { s with blockSize })
  case quit => exact SelfDelimiting.pure (Command.Effect.quit, s)
  all_goals exact absurd rfl hc

theorem selfDelimiting_command : SelfDelimiting Command.read := by
  refine (BitReader.selfDelimiting_rice Command.codeParameter).lift.bind fun code => ?_
  dsimp only
  cases Command.ofCode? code.toNat with
  | none => exact throw _
  | some c => exact SelfDelimiting.pure c

/-- Reads a command and carries it out, without the log. -/
def carryOut [Memory] (s : Stream) (r : BitReader) :
    Except Fault ((Command.Effect × Stream) × BitReader) := do
  let (c, r) ← Command.read r
  let (effect, s, r) ← (s.execute c r).outcome
  return ((effect, s), r)

/-- **Commands are self-delimiting.** -/
theorem selfDelimiting_carryOut [Memory] (s : Stream) : SelfDelimiting s.carryOut :=
  selfDelimiting_command.bind fun c => s.selfDelimiting_execute c

end Stream

/-! ## The header -/

namespace StreamInfo

theorem selfDelimiting_skipBytes (n : Nat) :
    SelfDelimiting fun r => skipBytes r n >>= fun r => .ok ((), r) := by
  induction n with
  | zero => exact SelfDelimiting.pure ()
  | succ n ih =>
    have h : SelfDelimiting fun r => (r.skip 8 >>= fun r => .ok ((), r)) >>= fun x =>
        skipBytes x.2 n >>= fun r => .ok ((), r) :=
      (BitReader.selfDelimiting_skip 8).bind fun _ => ih
    simpa only [skipBytes, bind_assoc, ok_bind] using h

theorem Sizes.selfDelimiting_read (version : UInt8) :
    SelfDelimiting fun r => Sizes.read version r := by
  by_cases hv : version = 0
  · simp only [Sizes.read, if_pos hv]
    exact SelfDelimiting.pure _
  simp only [Sizes.read, if_neg hv]
  refine (BitReader.selfDelimiting_adaptive _ _).lift.bind fun blockSize => ?_
  dsimp only
  apply check
  refine (BitReader.selfDelimiting_adaptive _ _).lift.bind fun maxOrder => ?_
  dsimp only
  refine (BitReader.selfDelimiting_adaptive _ _).lift.bind fun meanCount => ?_
  dsimp only
  apply check
  refine (BitReader.selfDelimiting_adaptive _ _).lift.bind fun skipped => ?_
  dsimp only
  have h := (selfDelimiting_skipBytes skipped.toNat).lift.map fun _ =>
    (⟨blockSize.toNat, maxOrder.toNat, meanCount.toInt32⟩ : Sizes)
  simp only [lift_read_bind, lift_read_ok, bind_assoc, ok_bind] at h
  exact h

theorem Preamble.selfDelimiting_read : SelfDelimiting Preamble.read := by
  refine (BitReader.selfDelimiting_bits 32).lift.bind fun found => ?_
  dsimp only
  apply check
  refine (BitReader.selfDelimiting_bits 8).lift.bind fun version => ?_
  dsimp only
  refine (BitReader.selfDelimiting_adaptive _ _).lift.bind fun typeCode => ?_
  dsimp only
  refine (BitReader.selfDelimiting_adaptive _ _).lift.bind fun channels => ?_
  dsimp only
  apply check
  apply check
  refine (Sizes.selfDelimiting_read _).bind fun sizes => ?_
  dsimp only
  apply check
  cases SampleType.ofCode? typeCode.toNat with
  | none => exact throw _
  | some sampleType => exact SelfDelimiting.pure _

theorem selfDelimiting_readWaveHeader : SelfDelimiting readWaveHeader := by
  refine (BitReader.selfDelimiting_rice Command.codeParameter).lift.bind fun code => ?_
  dsimp only
  apply check
  refine (BitReader.selfDelimiting_rice _).lift.bind fun size => ?_
  dsimp only
  apply check
  exact (BitReader.selfDelimiting_riceMany _ _).lift.map fun bytes => bytes.map (·.toUInt8)

/-- What is left to do once both parts of the header have been read. -/
def conclude (failLevel : Level) (preamble : Preamble) (waveHeader : Bytes) :
    Except Fault StreamInfo := do
  let wave ← (WaveFormat.parse waveHeader).outcome
  if latestVersion < preamble.version ∧ Level.warn ≤ failLevel then
    throw (.header (.unexpectedVersion preamble.version))
  return ofParts preamble waveHeader wave

theorem outcome_read (failLevel : Level) (r : BitReader) :
    (StreamInfo.read failLevel r).outcome =
      Preamble.read r >>= fun x => readWaveHeader x.2 >>= fun y =>
        conclude failLevel x.1 y.1 >>= fun info => .ok (info, y.2) := by
  simp only [StreamInfo.read, conclude, Checked.outcome_bind, Checked.outcome_lift, bind_assoc]
  congr 1
  funext ⟨preamble, r⟩
  congr 1
  funext ⟨waveHeader, r⟩
  congr 1
  funext wave
  by_cases hv : latestVersion < preamble.version
  · by_cases hl : Level.warn ≤ failLevel
    · simp only [if_pos hv, if_pos (And.intro hv hl), Checked.report, if_pos hl]
      rfl
    · simp only [if_pos hv, if_neg fun h : _ ∧ _ => hl h.2, Checked.report, if_neg hl]
      rfl
  · simp only [if_neg hv, if_neg fun h : _ ∧ _ => hv h.1]
    rfl

/-- **The header is self-delimiting.** -/
theorem selfDelimiting_read (failLevel : Level) :
    SelfDelimiting fun r => (StreamInfo.read failLevel r).outcome := by
  simp only [outcome_read]
  refine Preamble.selfDelimiting_read.bind fun preamble => ?_
  dsimp only
  refine selfDelimiting_readWaveHeader.bind fun waveHeader => ?_
  dsimp only
  cases conclude failLevel preamble waveHeader with
  | error e => exact throw e
  | ok info => exact SelfDelimiting.pure info

theorem passes_of_readWaveHeader {r r' : BitReader} {bytes : Bytes}
    (h : readWaveHeader r = .ok (bytes, r')) : ∃ n, 0 < n ∧ r.Passes n r' := by
  obtain ⟨⟨code, r₁⟩, hcode, h⟩ := bind_eq_ok.1 h
  obtain ⟨_, -, h⟩ := bind_eq_ok.1 h
  obtain ⟨⟨size, r₂⟩, hsize, h⟩ := bind_eq_ok.1 h
  obtain ⟨_, -, h⟩ := bind_eq_ok.1 h
  obtain ⟨⟨vs, r₃⟩, hvs, h⟩ := bind_eq_ok.1 h
  cases h
  obtain ⟨q, hcode⟩ := BitReader.passes_of_rice (lift_read_eq_ok.1 hcode)
  obtain ⟨q', hsize⟩ := BitReader.passes_of_rice (lift_read_eq_ok.1 hsize)
  obtain ⟨n, hvs⟩ := BitReader.passes_of_riceMany (lift_read_eq_ok.1 hvs)
  exact ⟨_, by omega, (hcode.trans hsize).trans hvs⟩

/-- A header has some bits. -/
theorem passes_of_read {failLevel : Level} {r r' : BitReader} {info : StreamInfo}
    (h : (StreamInfo.read failLevel r).outcome = .ok (info, r')) :
    ∃ n, 0 < n ∧ r.Passes n r' := by
  rw [outcome_read] at h
  obtain ⟨⟨preamble, r₁⟩, hpreamble, h⟩ := bind_eq_ok.1 h
  obtain ⟨⟨waveHeader, r₂⟩, hwave, h⟩ := bind_eq_ok.1 h
  obtain ⟨info', -, h⟩ := bind_eq_ok.1 h
  cases h
  obtain ⟨m, hm, -⟩ := Preamble.selfDelimiting_read.ok hpreamble
  obtain ⟨n, hpos, hn⟩ := passes_of_readWaveHeader hwave
  exact ⟨m + n, by omega, hm.trans hn⟩

end StreamInfo

end LosslessAudio
