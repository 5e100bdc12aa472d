import LosslessAudio.Proofs.Transcript

/-!
# Which bits decide a read

A decoder that sees a front of the stream has to know whether what it read there can be relied on,
and whether a failure can be mended by waiting.  Both questions have one answer: a read is decided
by exactly the bits that it passes over.

* `SelfDelimiting.overread_of_cut` — with any fewer bits it is short of bits, and nothing else is
  wrong.
* `Decided` — what this means for strings of bytes: other strings with the same bits, strings that
  were cut short, and strings that go on.
* `header_and_commands_decided` — headers are decided in this way, and so are commands in any state.
-/

set_option autoImplicit false

namespace LosslessAudio

/-! ## Places in a string of bytes -/

/-- The bits of a front of a byte string. -/
theorem Bits.take_ofBytes (bytes : Bytes) (n : Nat) :
    (ofBytes bytes).take (8 * n) = ofBytes (bytes.take n) := by
  rcases Nat.le_total n bytes.length with hle | hle
  · have hlength : (ofBytes (bytes.take n)).length = 8 * n := by
      rw [length_ofBytes, List.length_take_of_le hle]
    calc (ofBytes bytes).take (8 * n)
        = (ofBytes (bytes.take n) ++ ofBytes (bytes.drop n)).take (8 * n) := by
          rw [← ofBytes_append, List.take_append_drop]
      _ = ofBytes (bytes.take n) := List.take_left' hlength
  · rw [List.take_of_length_le hle, List.take_of_length_le]
    rw [length_ofBytes]
    omega

namespace BitReader

/-- A reader before bit `start` of a byte string. -/
def ofBytesAt (bytes : Bytes) (start : Nat) : BitReader :=
  (ofBytes bytes).advance start

@[simp] theorem position_ofBytesAt (bytes : Bytes) (start : Nat) :
    (ofBytesAt bytes start).position = start :=
  Nat.zero_add start

@[simp] theorem rest_ofBytesAt (bytes : Bytes) (start : Nat) :
    (ofBytesAt bytes start).rest = (Bits.ofBytes bytes).drop start := rfl

/-- Cutting the string cuts what is ahead of a reader. -/
theorem ofBytesAt_take (bytes : Bytes) (start n : Nat) :
    ofBytesAt (bytes.take n) start =
      ⟨start, (ofBytesAt bytes start).rest.take (8 * n - start)⟩ := by
  have hrest : (ofBytesAt (bytes.take n) start).rest =
      (ofBytesAt bytes start).rest.take (8 * n - start) := by
    rw [rest_ofBytesAt, rest_ofBytesAt, ← Bits.take_ofBytes, List.drop_take]
  exact congrArg₂ BitReader.mk (position_ofBytesAt _ start) hrest

/-- Where a string goes on, so does what is ahead of a reader. -/
theorem ofBytesAt_append {bytes : Bytes} {start : Nat} (h : start ≤ 8 * bytes.length)
    (more : Bytes) :
    ofBytesAt (bytes ++ more) start = (ofBytesAt bytes start).within start (Bits.ofBytes more) := by
  rw [← Bits.length_ofBytes] at h
  have hrest : (ofBytesAt (bytes ++ more) start).rest =
      (ofBytesAt bytes start).rest ++ Bits.ofBytes more := by
    rw [rest_ofBytesAt, rest_ofBytesAt, Bits.ofBytes_append, List.drop_append_of_le_length h]
  exact congrArg₂ BitReader.mk (position_ofBytesAt _ start) hrest

end BitReader

/-! ## Reads of strings of bytes -/

namespace SelfDelimiting

variable {ε α : Type} [Cause ε] {read : BitReader → Except ε (α × BitReader)}

/-- The same bits are read in the same way wherever they stand. -/
theorem ok_of_take_eq (hread : SelfDelimiting read) {r r' : BitReader} {a : α}
    (h : read r = .ok (a, r')) : ∃ n, r.Passes n r' ∧
      ∀ r₁ : BitReader, r₁.rest.take n = r.rest.take n → read r₁ = .ok (a, r₁.advance n) := by
  obtain ⟨n, hn, hreads⟩ := hread.reads h
  refine ⟨n, hn, fun r₁ hsame => ?_⟩
  have hlength : (r₁.rest.take n).length = n := by
    rw [hsame]
    exact List.length_take_of_le hn.1
  have hr₁ := hreads r₁.position (r₁.rest.drop n)
  rw [← hsame, List.take_append_drop, hlength] at hr₁
  exact hr₁

/-- **With fewer bits than it passes over, a read is short of bits**, and nothing else is wrong. -/
theorem overread_of_cut (hread : SelfDelimiting read) {r r' : BitReader} {a : α} {n m : Nat}
    (h : read r = .ok (a, r')) (hn : r.Passes n r') (hm : m < n) :
    ∃ e, read ⟨r.position, r.rest.take m⟩ = .error e ∧ Cause.isOverread e = true := by
  have hback : (⟨r.position, r.rest.take m⟩ : BitReader).within r.position (r.rest.drop m) = r := by
    rw [BitReader.within, List.take_append_drop]
  cases hcut : read ⟨r.position, r.rest.take m⟩ with
  | ok x =>
    -- what was read within `m` bits would be read from all of them, and go no further
    obtain ⟨k, hk, hok⟩ := hread.ok hcut
    have hsame := hok r.position (r.rest.drop m)
    rw [hback, h] at hsame
    have hposition : r.position + n = r.position + k := by
      rw [← hn.position_eq, (Prod.mk.inj (Except.ok.inj hsame)).2]
      rfl
    have hle : k ≤ m := Nat.le_trans hk.1 (List.length_take_le _ _)
    omega
  | error e =>
    refine ⟨e, rfl, ?_⟩
    cases hover : Cause.isOverread e with
    | true => rfl
    | false =>
      have hsame := hread.persists hcut hover (r.rest.drop m)
      rw [hback, h] at hsame
      cases hsame

end SelfDelimiting

/-- A read that begins at bit `start` of `bytes` is decided by the bits that it passes over. -/
structure Decided {α : Type} (read : BitReader → Except Fault (α × BitReader)) (bytes : Bytes)
    (start : Nat) : Prop where
  /-- If it passes over `p` bits, every string with the same bits there gives the same answer, also
  behind `p` bits, and a string that was cut short within these bits gives none. -/
  complete : ∀ {a r'}, read (.ofBytesAt bytes start) = .ok (a, r') →
    ∃ p, (BitReader.ofBytesAt bytes start).Passes p r' ∧
      (∀ other, (BitReader.ofBytesAt other start).rest.take p =
          (BitReader.ofBytesAt bytes start).rest.take p →
        read (.ofBytesAt other start) = .ok (a, (BitReader.ofBytesAt other start).advance p)) ∧
      ∀ n, start ≤ 8 * n → 8 * n < start + p →
        ∃ fault, read (.ofBytesAt (bytes.take n) start) = .error fault ∧ fault.isOverread = true
  /-- If it is refused, and not for want of bits, it is refused for the same cause however the
  string goes on. -/
  refused : ∀ {fault}, read (.ofBytesAt bytes start) = .error fault → fault.isOverread = false →
    ∀ more, read (.ofBytesAt (bytes ++ more) start) = .error fault

theorem SelfDelimiting.decided {α : Type} {read : BitReader → Except Fault (α × BitReader)}
    (hread : SelfDelimiting read) {bytes : Bytes} {start : Nat}
    (hstart : start ≤ 8 * bytes.length) :
    Decided read bytes start where
  complete {a r'} h := by
    obtain ⟨p, hp, hsame⟩ := hread.ok_of_take_eq h
    refine ⟨p, hp, fun other => hsame _, fun n hle hlt => ?_⟩
    obtain ⟨fault, hfault, hover⟩ := hread.overread_of_cut (m := 8 * n - start) h hp (by omega)
    rw [BitReader.position_ofBytesAt, ← BitReader.ofBytesAt_take] at hfault
    exact ⟨fault, hfault, hover⟩
  refused {fault} h hover more := by
    have hmore := hread.persists h hover (Bits.ofBytes more)
    rwa [BitReader.position_ofBytesAt, ← BitReader.ofBytesAt_append hstart] at hmore

/-- **Headers and commands are decided by their own bits**, whatever counts as a failure and in
every state of the stream: a header at the start of a string, and a command at any bit of it. -/
theorem header_and_commands_decided [Memory] (bytes : Bytes) :
    (∀ failLevel, Decided (fun r => (StreamInfo.read failLevel r).outcome) bytes 0) ∧
      ∀ (s : Stream) (start : Nat), start ≤ 8 * bytes.length → Decided s.carryOut bytes start :=
  ⟨fun failLevel => (StreamInfo.selfDelimiting_read failLevel).decided (Nat.zero_le _),
    fun s _ hstart => s.selfDelimiting_carryOut.decided hstart⟩

end LosslessAudio
