import LosslessAudio.File.Fault
import LosslessAudio.Log
import LosslessAudio.Memory

/-!
# Sources of bytes

A source is what stands at the place that the input is read from.  `Source.open` gives a reader of
it, and `Reader.forEachChunk` hands the bytes, a chunk at a time, to a consumer that may stop it.

How many bytes a read gives is up to the system: at least one while there are any, and never more
than were asked for.  A reader therefore comes with the replies that the system is going to give.
Chunks may be shorter than the chunk size; in their order they are the source (`read_spec`).
-/

set_option autoImplicit false

namespace LosslessAudio

/-- How the system replies to a request for bytes. -/
inductive Reply where
  /-- It fetches up to `fetched` bytes of the source and then gives up to `given` of those that were
  fetched and not given yet, but at least one as long as there are any. -/
  | gives (fetched given : Nat)
  /-- Something came in between, and the request is to be made again. -/
  | interrupted
  | fails (fault : FileFault)
  deriving DecidableEq, Repr

/-- The first reply that is not an interruption, and those behind it.  The reply is `regular`
where the list has come to its end. -/
def Reply.first (regular : Nat × Nat) :
    List Reply → Except FileFault (Nat × Nat) × List Reply
  | [] => (.ok regular, [])
  | .gives fetched given :: replies => (.ok (fetched, given), replies)
  | .interrupted :: replies => first regular replies
  | .fails fault :: replies => (.error fault, replies)

/-- What stands at the place the input is read from. -/
inductive Source where
  /-- Nothing that can be opened. -/
  | closed (fault : FileFault)
  /-- Something that can be opened, but not read. -/
  | unreadable (fault : FileFault)
  | file (contents : Bytes)
  /-- Bytes that come from another program. -/
  | pipe (contents : Bytes)
  deriving DecidableEq, Repr

/-- An open source. -/
structure Reader where
  isPipe : Bool
  /-- How long the source is, where that is known beforehand. -/
  size? : Option Nat
  /-- Why nothing can be read. -/
  fault? : Option FileFault
  /-- How the requests to come are answered. -/
  replies : List Reply
  /-- The bytes that were fetched and not given yet. -/
  buffer : Bytes
  /-- What the source holds. -/
  contents : Bytes
  /-- How many bytes of the source were fetched. -/
  position : Nat
  deriving DecidableEq, Repr

/-- Opens a source. -/
def Source.open (replies : List Reply) : Source → Except FileFault Reader
  | .closed fault => .error fault
  | .unreadable fault => .ok ⟨false, none, some fault, replies, [], [], 0⟩
  | .file contents => .ok ⟨false, some contents.length, none, replies, [], contents, 0⟩
  | .pipe contents => .ok ⟨true, none, none, replies, [], contents, 0⟩

namespace Reader

/-- The length of the buffer. -/
def capacity : Nat := 8192

variable (r : Reader)

/-- The bytes that are left. -/
def rest : Bytes :=
  r.buffer ++ r.contents.drop r.position

/-- How a request for `n` bytes is answered if nothing gets in the way: the buffer is filled when it
is empty, unless more is asked for than it holds, and small requests go no further than its end. -/
def regular (n : Nat) : Nat × Nat :=
  (if r.buffer = [] then max capacity n else 0, n)

/-- Fetches up to `n` bytes, and at least one if none are waiting. -/
def fetch (n : Nat) : Reader :=
  let fetched := (r.contents.drop r.position).take (if r.buffer = [] then max 1 n else n)
  { r with buffer := r.buffer ++ fetched, position := r.position + fetched.length }

/-- Reads at most `n` bytes. -/
def read (n : Nat) : Except FileFault (Bytes × Reader) :=
  match r.fault? with
  | some fault => .error fault
  | none =>
    match Reply.first (r.regular n) r.replies with
    | (.error fault, _) => .error fault
    | (.ok (fetched, given), replies) =>
      let r := { r with replies }.fetch fetched
      let taken := min n (max 1 given)
      .ok (r.buffer.take taken, { r with buffer := r.buffer.drop taken })

@[simp] theorem rest_fetch (n : Nat) : (r.fetch n).rest = r.rest := by
  rw [rest, rest, fetch]
  dsimp only
  rw [List.append_assoc, ← List.drop_drop, List.prefix_iff_eq_append.1 (List.take_prefix _ _)]

variable {r}

/-- What a read gives, followed by what is left then, is what was left before. -/
theorem read_spec {r' : Reader} {n : Nat} {chunk : Bytes} (h : r.read n = .ok (chunk, r')) :
    chunk ++ r'.rest = r.rest := by
  rw [read] at h
  split at h
  · cases h
  · split at h
    · cases h
    · rename_i fetched given replies _
      cases h
      calc _ ++ ((({ r with replies }.fetch fetched).buffer.drop _) ++ _)
          = ({ r with replies }.fetch fetched).rest := by
            rw [← List.append_assoc, List.take_append_drop, rest]
        _ = r.rest := rest_fetch _ _

end Reader

/-- Who is given the chunks of a source: `onChunk` is given the consumer's own state, and answers
with its new state and whether to go on, or with a failure.  `ofFault` is the failure that stands
for a failure to read. -/
structure Consumer (σ ε : Type) where
  onChunk : σ → Bytes → Logged (σ × Except ε Bool)
  ofFault : FileFault → ε

namespace Reader

variable {σ ε : Type}

/-- What handing out chunks leads to: the reader, the consumer's state, and how it ended. -/
structure Handed (σ ε : Type) where
  reader : Reader
  state : σ
  outcome : Except ε Unit

/-- Hands the bytes of a source to a consumer, at most `size` of them at a time, until there are
none left or the consumer stops. -/
def handOut (consumer : Consumer σ ε) (size : Nat) (r : Reader) (state : σ) :
    Logged (Handed σ ε) :=
  match h : r.read size with
  | .error fault => return ⟨r, state, .error (consumer.ofFault fault)⟩
  | .ok ([], r) => return ⟨r, state, .ok ()⟩
  | .ok (b :: chunk, r') => do
    have : r'.rest.length < r.rest.length := by
      rw [← read_spec h, List.length_append, List.length_cons]
      omega
    match ← consumer.onChunk state (b :: chunk) with
    | (state, .error e) => return ⟨r', state, .error e⟩
    | (state, .ok false) => return ⟨r', state, .ok ()⟩
    | (state, .ok true) => handOut consumer size r' state
termination_by r.rest.length

/-- Hands out the bytes of a source in a buffer of `size` bytes, or of one byte if `size` is 0. -/
def forEachChunk [Memory] (consumer : Consumer σ ε) (size : Nat) (r : Reader) (state : σ) :
    Logged (Except Breakdown (Handed σ ε)) := do
  match Memory.allocate (max 1 size) with
  | .error breakdown => return .error breakdown
  | .ok () => return .ok (← handOut consumer (max 1 size) r state)

end Reader

end LosslessAudio
