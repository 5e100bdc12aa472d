import LosslessAudio.Proofs.Intakes
import LosslessAudio.Transcoding.Delivery

/-!
# Handing out a source

`Reader.forEachChunk` hands the bytes of a source to a consumer, a chunk at a time.  `HandsOut` says
what handing out is, however much each read gives and whatever the consumer answers: each byte in
turn, no byte twice, and none behind a call that ends it.

* `Consumer.recorded` — the same consumer, keeping a list of the calls that are made to it.
* `Reader.handsOut_handOut` — the calls of the loop over the chunks hand out what the reader has
  left.
* `Reader.calls_of_forEachChunk` says what this comes to if there is a buffer for the chunks, and
  `Reader.forEachChunk_of_bufferLimit_lt` that there is none from 2^63 bytes on.
-/

set_option autoImplicit false

namespace LosslessAudio

variable {σ ε : Type}

/-! ## Calls -/

namespace Consumer

/-- One call of a consumer: the chunk that it is given, and what it answers. -/
structure Call (ε : Type) where
  chunk : Bytes
  answer : Except ε Bool

/-- The same consumer, which keeps a list of the calls that are made to it. -/
def recorded (consumer : Consumer σ ε) : Consumer (σ × List (Call ε)) ε where
  onChunk := fun (state, calls) chunk => do
    let (state, answer) ← consumer.onChunk state chunk
    return ((state, calls ++ [⟨chunk, answer⟩]), answer)
  ofFault := consumer.ofFault

theorem value_onChunk_recorded (consumer : Consumer σ ε) (state : σ) (calls : List (Call ε))
    (chunk : Bytes) : (consumer.recorded.onChunk (state, calls) chunk).value =
      let x := (consumer.onChunk state chunk).value
      ((x.1, calls ++ [⟨chunk, x.2⟩]), x.2) := rfl

end Consumer

namespace Reader

variable {r r' : Reader} {consumer : Consumer σ ε} {size : Nat}

/-- What handing out leads to, without the list of calls. -/
def Handed.forget {γ : Type} (handed : Handed (σ × γ) ε) : Handed σ ε :=
  ⟨handed.reader, handed.state.1, handed.outcome⟩

/-- How a reader is handed out in chunks of at most `size` bytes: the calls in their order, the
reader that is left, and how it ends. -/
inductive HandsOut (ofFault : FileFault → ε) (size : Nat) :
    Reader → List (Consumer.Call ε) → Reader → Except ε Unit → Prop
  /-- A read fails. -/
  | broken {r : Reader} {fault : FileFault} (hread : r.read size = .error fault) :
      HandsOut ofFault size r [] r (.error (ofFault fault))
  /-- A read gives nothing. -/
  | exhausted {r r' : Reader} (hread : r.read size = .ok ([], r')) :
      HandsOut ofFault size r [] r' (.ok ())
  /-- The consumer wants no more. -/
  | stopped {r r' : Reader} {chunk : Bytes} (hread : r.read size = .ok (chunk, r'))
      (hne : chunk ≠ []) : HandsOut ofFault size r [⟨chunk, .ok false⟩] r' (.ok ())
  /-- The consumer fails. -/
  | failed {r r' : Reader} {chunk : Bytes} {e : ε} (hread : r.read size = .ok (chunk, r'))
      (hne : chunk ≠ []) : HandsOut ofFault size r [⟨chunk, .error e⟩] r' (.error e)
  | goesOn {r r' left : Reader} {chunk : Bytes} {calls : List (Consumer.Call ε)}
      {outcome : Except ε Unit} (hread : r.read size = .ok (chunk, r')) (hne : chunk ≠ [])
      (h : HandsOut ofFault size r' calls left outcome) :
      HandsOut ofFault size r (⟨chunk, .ok true⟩ :: calls) left outcome

theorem length_le_of_read {n : Nat} {chunk : Bytes} (hread : r.read n = .ok (chunk, r')) :
    chunk.length ≤ n := by
  rw [read] at hread
  split at hread
  · cases hread
  split at hread
  · cases hread
  cases hread
  rw [List.length_take]
  exact Nat.le_trans (Nat.min_le_left _ _) (Nat.min_le_left _ _)

namespace HandsOut

variable {ofFault : FileFault → ε} {left : Reader} {calls : List (Consumer.Call ε)}
  {outcome : Except ε Unit}

/-- No chunk is empty, or too long. -/
theorem bounded (h : HandsOut ofFault size r calls left outcome) :
    ∀ call ∈ calls, call.chunk ≠ [] ∧ call.chunk.length ≤ size := by
  induction h with
  | broken | exhausted => exact nofun
  | stopped hread hne | failed hread hne => simpa using ⟨hne, length_le_of_read hread⟩
  | goesOn hread hne _ ih => exact List.forall_mem_cons.2 ⟨⟨hne, length_le_of_read hread⟩, ih⟩

/-- The chunks, and then what is left, are what there was. -/
theorem flatten_append (h : HandsOut ofFault size r calls left outcome) :
    (calls.map (·.chunk)).flatten ++ left.rest = r.rest := by
  induction h with
  | broken => rfl
  | exhausted hread | stopped hread | failed hread => simpa using read_spec hread
  | goesOn hread _ _ ih =>
    rw [List.map_cons, List.flatten_cons, List.append_assoc, ih]
    exact read_spec hread

/-- If the consumer always goes on, nothing is left, unless a read fails. -/
theorem whole (h : HandsOut ofFault size r calls left outcome) (hsize : 0 < size)
    (hanswers : ∀ call ∈ calls, call.answer = .ok true) :
    (left.rest = [] ∧ outcome = .ok ()) ∨
      ∃ fault, left.read size = .error fault ∧ outcome = .error (ofFault fault) := by
  induction h with
  | broken hread => exact .inr ⟨_, hread, rfl⟩
  | exhausted hread => exact .inl ⟨(read_spec hread).trans (rest_of_read hsize hread), rfl⟩
  | stopped | failed => simp at hanswers
  | goesOn _ _ _ ih => exact ih fun call hcall => hanswers call (List.mem_cons_of_mem _ hcall)

/-- A call that does not go on is the last one, and what it answers is how it ends. -/
theorem last (h : HandsOut ofFault size r calls left outcome) {i : Nat} {call : Consumer.Call ε}
    (hcall : calls[i]? = some call) (hanswer : call.answer ≠ .ok true) :
    i + 1 = calls.length ∧ outcome = call.answer.map fun _ => () := by
  induction h generalizing i with
  | broken | exhausted => simp at hcall
  | stopped | failed =>
    cases i with
    | zero =>
      obtain rfl := Option.some.inj hcall
      exact ⟨rfl, rfl⟩
    | succ i => simp at hcall
  | goesOn _ _ _ ih =>
    cases i with
    | zero =>
      obtain rfl := Option.some.inj hcall
      exact absurd rfl hanswer
    | succ i =>
      obtain ⟨hlength, houtcome⟩ := ih hcall
      exact ⟨by rw [List.length_cons, hlength], houtcome⟩

theorem reliable (h : HandsOut ofFault size r calls left outcome) (hr : r.Reliable) :
    left.Reliable := by
  induction h with
  | broken => exact hr
  | exhausted hread | stopped hread | failed hread => exact hr.of_read hread
  | goesOn hread _ _ ih => exact ih (hr.of_read hread)

end HandsOut

/-! ## The loop -/

/-- Keeping a list of the calls changes nothing else. -/
theorem forget_handOut_recorded (consumer : Consumer σ ε) (size : Nat) (r : Reader) (state : σ)
    (calls : List (Consumer.Call ε)) :
    Handed.forget <$> r.handOut consumer.recorded size (state, calls) =
      r.handOut consumer size state := by
  induction r using read_induction (n := size) generalizing state calls with
  | broken r fault hread =>
    rw [handOut_of_error hread, handOut_of_error hread]
    rfl
  | exhausted r r' hread =>
    rw [handOut_of_nil hread, handOut_of_nil hread]
    rfl
  | chunk r r' chunk hread hne ih =>
    rw [handOut_of_chunk hread hne, handOut_of_chunk hread hne, map_bind]
    simp only [Consumer.recorded, bind_assoc, pure_bind]
    refine congrArg _ (funext fun x => ?_)
    rcases x with ⟨state', e | _ | _⟩
    · rfl
    · rfl
    · exact ih state' _

/-- **The calls of the loop hand out what the reader has left.** -/
theorem handsOut_handOut (consumer : Consumer σ ε) (size : Nat) (r : Reader) (state : σ)
    (before : List (Consumer.Call ε)) :
    let handed := (r.handOut consumer.recorded size (state, before)).value
    ∃ calls, handed.state.2 = before ++ calls ∧
      HandsOut consumer.ofFault size r calls handed.reader handed.outcome := by
  induction r using read_induction (n := size) generalizing state before with
  | broken r fault hread =>
    rw [handOut_of_error hread]
    exact ⟨[], (List.append_nil _).symm, .broken hread⟩
  | exhausted r r' hread =>
    rw [handOut_of_nil hread]
    exact ⟨[], (List.append_nil _).symm, .exhausted hread⟩
  | chunk r r' chunk hread hne ih =>
    rw [handOut_of_chunk hread hne, Logged.value_bind, Consumer.value_onChunk_recorded]
    rcases (consumer.onChunk state chunk).value with ⟨state', e | _ | _⟩
    · exact ⟨_, rfl, .failed hread hne⟩
    · exact ⟨_, rfl, .stopped hread hne⟩
    · obtain ⟨calls, hcalls, hhands⟩ := ih state' (before ++ [⟨chunk, .ok true⟩])
      exact ⟨⟨chunk, .ok true⟩ :: calls, hcalls.trans (List.append_assoc _ _ _),
        .goesOn hread hne hhands⟩

/-- **What a source is handed out as.**  If there is a buffer for the chunks, a consumer is given
what a reader has left, in order and in chunks that are neither empty nor longer than asked for;
it is given all of it if it always goes on and no read fails.  The first answer that is different
ends the loop and decides how it ends, and what is read next begins right behind the last chunk. -/
theorem calls_of_forEachChunk [Memory] (consumer : Consumer σ ε) {size : Nat}
    (hbuffer : Memory.allocate (max 1 size) = .ok ()) (r : Reader) (state : σ) :
    let recorded := r.forEachChunk consumer.recorded size (state, [])
    Except.map Handed.forget <$> recorded = r.forEachChunk consumer size state ∧
    ∃ handed, recorded.value = .ok handed ∧
      let left := handed.reader
      let calls := handed.state.2
      (∀ call ∈ calls, call.chunk ≠ [] ∧ call.chunk.length ≤ max 1 size) ∧
      (calls.map (·.chunk)).flatten ++ left.rest = r.rest ∧
      ((∀ call ∈ calls, call.answer = .ok true) →
        (left.rest = [] ∧ handed.outcome = .ok ()) ∨ ∃ fault,
          left.read (max 1 size) = .error fault ∧
            handed.outcome = .error (consumer.ofFault fault)) ∧
      (∀ (i : Nat) (call : Consumer.Call ε), calls[i]? = some call → call.answer ≠ .ok true →
        i + 1 = calls.length ∧ handed.outcome = call.answer.map fun _ => ()) ∧
      (∀ n, 0 < n → ∀ next after, left.read n = .ok (next, after) →
        next.length ≤ n ∧ next ++ after.rest = left.rest ∧ (next = [] → left.rest = [])) ∧
      (r.Reliable → ∀ n, ∃ next after, left.read n = .ok (next, after)) := by
  have hpos : 0 < max 1 size := Nat.le_max_left 1 size
  obtain ⟨calls, hcalls, hhands⟩ := handsOut_handOut consumer (max 1 size) r state []
  rw [List.nil_append] at hcalls
  rw [forEachChunk_of_buffer hbuffer, forEachChunk_of_buffer hbuffer,
    ← forget_handOut_recorded consumer (max 1 size) r state []]
  refine ⟨rfl, _, rfl, ?_⟩
  dsimp only
  rw [hcalls]
  refine ⟨hhands.bounded, hhands.flatten_append, hhands.whole hpos, fun _ _ => hhands.last,
    fun n hn next after hread => ?_, fun hr n => ?_⟩
  · exact ⟨length_le_of_read hread, read_spec hread, fun hnext => rest_of_read hn (hnext ▸ hread)⟩
  · obtain ⟨next, after, hread, -⟩ := (hhands.reliable hr).exists_read n
    exact ⟨next, after, hread⟩

/-- A consumer that takes one chunk, and fails at the second. -/
def secondFails : Consumer Nat String where
  onChunk calls _ := pure (calls + 1, if calls = 0 then .ok true else .error "full")
  ofFault := FileFault.message

/-- A file of eight bytes that was just opened.  The first read gives two bytes of the five that it
fetches. -/
def eightBytes : Reader :=
  ⟨false, some 8, none, [.gives 5 2, .interrupted], [], [1, 2, 3, 4, 5, 6, 7, 8], 0⟩

open scoped Memory in
theorem calls_of_forEachChunk_secondFails :
    ∃ handed, (eightBytes.forEachChunk secondFails.recorded 3 (0, [])).value = .ok handed ∧
      handed.state.2 = [⟨[1, 2], .ok true⟩, ⟨[3, 4, 5], .error "full"⟩] ∧
      handed.outcome = .error "full" ∧ handed.reader.rest = [6, 7, 8] := by
  have hbuffer : Memory.allocate (max 1 3) = .ok () := rfl
  obtain ⟨-, handed, hhanded, -, hsplit, -, hlast, -⟩ :=
    calls_of_forEachChunk secondFails hbuffer eightBytes 0
  have hcalls : handed.state.2 = [⟨[1, 2], .ok true⟩, ⟨[3, 4, 5], .error "full"⟩] := by
    let threeLeft := { eightBytes with
      buffer := [3, 4, 5], position := 5, replies := [.interrupted] }
    have hfirst : eightBytes.read (max 1 3) = .ok ([1, 2], threeLeft) := rfl
    have hsecond : threeLeft.read (max 1 3) =
        .ok ([3, 4, 5], { threeLeft with buffer := [], replies := [] }) := rfl
    rw [forEachChunk_of_buffer rfl, handOut_of_chunk hfirst (List.cons_ne_nil _ _)] at hhanded
    change (Except.ok <$> threeLeft.handOut secondFails.recorded (max 1 3)
      (1, [⟨[1, 2], .ok true⟩])).value = _ at hhanded
    rw [handOut_of_chunk hsecond (List.cons_ne_nil _ _)] at hhanded
    obtain rfl := Except.ok.inj hhanded
    rfl
  rw [hcalls] at hsplit hlast
  exact ⟨handed, hhanded, hcalls, (hlast 1 _ rfl nofun).2, List.append_cancel_left hsplit⟩

/-- From 2^63 bytes on, no machine has a buffer for the chunks. -/
theorem forEachChunk_of_bufferLimit_lt [Memory] (hsize : Memory.bufferLimit < size) (state : σ) :
    r.forEachChunk consumer size state = pure (.error .panic) :=
  forEachChunk_of_breakdown (if_pos (Nat.lt_of_lt_of_le hsize (Nat.le_max_right 1 size))) state

open scoped Memory in
/-- A worker is handed the whole of a stream in chunks of thirty bytes, and nothing of it in chunks
of 2^63. -/
theorem stereoStream_not_handed_out :
    let whole (size : Nat) := ∃ r handed, (Source.file stereoStream).open [] = .ok r ∧
      (r.forEachChunk (Intake.consumer (Delivery.listener true)).recorded size
        (⟨.ofLevel .error, .start, 0, false⟩, [])).value = .ok handed ∧
      (handed.state.2.map (·.chunk)).flatten = stereoStream
    whole 30 ∧ ¬∀ size, whole size := by
  refine ⟨⟨_, _, rfl, congrArg Logged.value (forEachChunk_of_buffer rfl _), by decide +kernel⟩,
    fun hlaw => ?_⟩
  obtain ⟨r, handed, -, hhanded, -⟩ := hlaw (2 ^ 63)
  rw [forEachChunk_of_bufferLimit_lt (by decide)] at hhanded
  cases hhanded

end Reader

end LosslessAudio
