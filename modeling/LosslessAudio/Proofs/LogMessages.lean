import LosslessAudio.Decoder.Intake
import LosslessAudio.Proofs.Findings
import LosslessAudio.Text.Decimal

/-!
# What a decoder logs

Every record that a decoder leaves, whatever it is fed, has a message of printable ASCII characters:
the messages are made of fixed words and of numbers, never of the bytes of a stream.

* `Logged.Leaves` — every record that a computation leaves has a property.
* `Stream.leaves_runCommands` says so of a pass, by induction on its commands, and
  `Decoder.leaves_takeIn` of everything that comes of a source.
-/

set_option autoImplicit false

namespace LosslessAudio

/-! ## Printable text -/

namespace Text

/-- A text of printable ASCII characters. -/
def IsPrintable (text : String) : Prop :=
  ∀ c ∈ text.toList, 0x20 ≤ c.toNat ∧ c.toNat ≤ 0x7E

instance (text : String) : Decidable (IsPrintable text) :=
  List.decidableBAll (fun c : Char => 0x20 ≤ c.toNat ∧ c.toNat ≤ 0x7E) text.toList

theorem isPrintable_append_iff {s t : String} :
    IsPrintable (s ++ t) ↔ IsPrintable s ∧ IsPrintable t := by
  rw [IsPrintable, String.toList_append]
  exact List.forall_mem_append

theorem isPrintable_toString_iff {s : String} : IsPrintable (toString s) ↔ IsPrintable s :=
  Iff.rfl

/-- A text is printable if its characters are. -/
theorem isPrintable_ofList_iff {cs : List Char} :
    IsPrintable (String.ofList cs) ↔ ∀ c ∈ cs, 0x20 ≤ c.toNat ∧ c.toNat ≤ 0x7E := by
  rw [IsPrintable, String.toList_ofList]

/-- The digits of a number are printable characters. -/
theorem printable_of_mem_toDigits {n : Nat} {c : Char} (h : c ∈ Nat.toDigits 10 n) :
    0x20 ≤ c.toNat ∧ c.toNat ≤ 0x7E := by
  have hdigit := Char.isDigit_iff_toNat.1 (Nat.isDigit_of_mem_toDigits (by decide) (by decide) h)
  exact ⟨Nat.le_trans (by decide) hdigit.1, Nat.le_trans hdigit.2 (by decide)⟩

/-- Every number is written in printable characters. -/
theorem isPrintable_nat (n : Nat) : IsPrintable (toString n) := by
  rw [Nat.toString_eq_ofList_toDigits, isPrintable_ofList_iff]
  exact fun c => printable_of_mem_toDigits

/-- So is one with a sign. -/
theorem isPrintable_int (n : Int) : IsPrintable (toString n) := by
  rw [Int.toString_eq_repr, Int.repr_eq_if]
  split
  · exact isPrintable_nat _
  · exact isPrintable_append_iff.2 ⟨by decide, isPrintable_nat _⟩

/-- So is a number with zeros in front. -/
theorem isPrintable_padded (width n : Nat) : IsPrintable (padded width n) := by
  rw [padded, isPrintable_ofList_iff]
  intro c hc
  rcases List.mem_append.1 hc with hc | hc
  · obtain rfl := List.eq_of_mem_replicate hc
    decide
  · exact printable_of_mem_toDigits hc

/-- Printable texts with a printable separator between them are printable. -/
theorem isPrintable_intercalate {separator : String} (hseparator : IsPrintable separator)
    {texts : List String} (h : ∀ text ∈ texts, IsPrintable text) :
    IsPrintable (separator.intercalate texts) := by
  induction texts with
  | nil => exact (by decide : IsPrintable "")
  | cons text texts ih =>
    obtain ⟨htext, htexts⟩ := List.forall_mem_cons.1 h
    cases texts with
    | nil => rwa [String.intercalate_singleton]
    | cons next texts =>
      rw [String.intercalate_cons_cons, isPrintable_append_iff, isPrintable_append_iff]
      exact ⟨⟨htext, hseparator⟩, ih htexts⟩

end Text

/-! ## The records of a computation -/

namespace Logged

variable {α β : Type} {P Q : Record → Prop}

/-- Every record that a computation leaves has a property. -/
def Leaves (P : Record → Prop) (x : Logged α) : Prop :=
  ∀ r ∈ x.log, P r

/-- A computation that logs nothing leaves only records with the property. -/
theorem leaves_of_log_eq_nil {x : Logged α} (h : x.log = []) : x.Leaves P := by
  rw [Leaves, h]
  exact nofun

theorem leaves_pure (a : α) : (pure a : Logged α).Leaves P :=
  leaves_of_log_eq_nil rfl

theorem leaves_note {level : Level} {origin : Origin} {message : String}
    (h : P ⟨level, origin, message⟩) : (note level origin message).Leaves P :=
  fun _ hr => List.mem_singleton.1 hr ▸ h

/-- Two computations in a row leave the records of both. -/
theorem Leaves.bind {x : Logged α} {f : α → Logged β} (hx : x.Leaves P)
    (hf : ∀ a, (f a).Leaves P) : (x >>= f).Leaves P := by
  intro r hr
  rw [log_bind] at hr
  exact (List.mem_append.1 hr).elim (hx r) (hf _ r)

theorem Leaves.mono {x : Logged α} (hx : x.Leaves P) (h : ∀ r, P r → Q r) : x.Leaves Q :=
  fun r hr => h r (hx r hr)

end Logged

namespace Checked

variable {α β : Type} {P : Record → Prop}

/-- The second of two computations leaves records only if the first one succeeds. -/
theorem leaves_bind {x : Checked α} {f : α → Checked β} (hx : x.run.Leaves P)
    (hf : ∀ a, (f a).run.Leaves P) : (x >>= f).run.Leaves P := by
  rw [ExceptT.run_bind]
  refine hx.bind fun outcome => ?_
  cases outcome with
  | ok a => exact hf a
  | error fault => exact Logged.leaves_pure _

/-- A report leaves at most the message of its fault. -/
theorem leaves_report {failLevel level : Level} {origin : Origin} {fault : Fault}
    (h : P ⟨level, origin, fault.message⟩) :
    (report failLevel level origin fault).run.Leaves P := by
  unfold report
  split
  · exact Logged.leaves_of_log_eq_nil rfl
  · exact Logged.leaves_note h

end Checked

/-- The message of a record is printable. -/
def Record.IsPrintable (r : Record) : Prop :=
  Text.IsPrintable r.message

instance (r : Record) : Decidable r.IsPrintable :=
  inferInstanceAs (Decidable (Text.IsPrintable r.message))

open Logged (leaves_of_log_eq_nil leaves_pure leaves_note)
open Text (isPrintable_append_iff isPrintable_toString_iff isPrintable_nat isPrintable_int)

/-- What is wrong with a stream is said in words and numbers. -/
theorem Finding.isPrintable_record (f : Finding) : f.record.IsPrintable := by
  cases f with
  | unexpectedVersion version =>
    show Text.IsPrintable s!"unexpected stream version {version.toNat}"
    simp only [isPrintable_append_iff, isPrintable_toString_iff, isPrintable_nat]
    decide
  | missingQuit bitsLeft =>
    show Text.IsPrintable
      s!"stream ended without a quit command ({bitsLeft} bits left over)"
    simp only [isPrintable_append_iff, isPrintable_toString_iff, isPrintable_nat]
    decide

/-! ## The header -/

namespace WaveFormat

/-- The name of a skipped chunk is logged as the numbers of its bytes, not as the bytes
themselves. -/
theorem isPrintable_skippedChunkMessage (name : Bytes) (length : Nat) :
    Text.IsPrintable (skippedChunkMessage name length) := by
  have hname : Text.IsPrintable (", ".intercalate (name.map fun b => toString b.toNat)) := by
    refine Text.isPrintable_intercalate (by decide) fun text h => ?_
    obtain ⟨b, -, rfl⟩ := List.mem_map.1 h
    exact isPrintable_nat _
  unfold skippedChunkMessage
  simp only [hname, isPrintable_append_iff, isPrintable_toString_iff, isPrintable_nat]
  decide

/-- The search for a chunk logs one record for each chunk it skips. -/
theorem leaves_findChunk (bytes : Bytes) : (findChunk bytes).Leaves Record.IsPrintable := by
  induction bytes using findChunk.induct with
  | case1 bytes fault htake =>
    rw [findChunk_of_error htake]
    exact leaves_pure _
  | case2 bytes head rest htake name hname =>
    rw [findChunk_of_ok htake, if_pos hname]
    exact leaves_pure _
  | case3 bytes head rest htake name length hname _ ih =>
    rw [findChunk_of_ok htake, if_neg hname]
    exact (leaves_note (isPrintable_skippedChunkMessage _ _)).bind fun _ => ih

theorem leaves_liftFault {α : Type} (x : Except WaveFault α) :
    (parse.liftFault x).run.Leaves Record.IsPrintable := by
  cases x <;> exact leaves_of_log_eq_nil rfl

/-- What the parse of a verbatim header logs is printable. -/
theorem leaves_parse (bytes : Bytes) : (parse bytes).run.Leaves Record.IsPrintable := by
  refine Checked.leaves_bind (leaves_liftFault _) fun chunks => ?_
  refine Checked.leaves_bind ?_ fun found => ?_
  · intro r hr
    exact leaves_findChunk chunks r ((Logged.log_map Except.ok _).subst hr)
  refine Checked.leaves_bind (leaves_liftFault found) fun x => ?_
  refine Checked.leaves_bind (leaves_liftFault _) fun format => ?_
  split
  · refine Checked.leaves_bind (leaves_note ?_) fun _ => leaves_of_log_eq_nil rfl
    simp only [Record.IsPrintable, isPrintable_append_iff, isPrintable_toString_iff,
      isPrintable_nat]
    decide
  · exact leaves_of_log_eq_nil rfl

end WaveFormat

namespace StreamInfo

theorem isPrintable_description (type : SampleType) : Text.IsPrintable type.description := by
  cases type <;> decide

/-- The summary of a stream is made of numbers and of the name of its sample type. -/
theorem isPrintable_summary (info : StreamInfo) : Text.IsPrintable info.summary := by
  unfold summary
  simp only [isPrintable_description, isPrintable_append_iff, isPrintable_toString_iff,
    isPrintable_nat, isPrintable_int]
  decide

/-- What the parse of a header logs is printable: its chunks, its version and its summary. -/
theorem leaves_read (failLevel : Level) (r : BitReader) :
    (read failLevel r).run.Leaves Record.IsPrintable := by
  have hsummary (info : StreamInfo) (r : BitReader) :
      (do Checked.note .debug .header info.summary; return (info, r)
        : Checked (StreamInfo × BitReader)).run.Leaves Record.IsPrintable :=
    Checked.leaves_bind (leaves_note (isPrintable_summary info)) fun _ => leaves_of_log_eq_nil rfl
  refine Checked.leaves_bind (leaves_of_log_eq_nil rfl) fun (preamble, r₁) => ?_
  refine Checked.leaves_bind (leaves_of_log_eq_nil rfl) fun (waveHeader, r₂) => ?_
  refine Checked.leaves_bind (WaveFormat.leaves_parse waveHeader) fun wave => ?_
  dsimp only
  split
  · have hreport := Finding.isPrintable_record (.unexpectedVersion preamble.version)
    exact Checked.leaves_bind (Checked.leaves_report hreport) fun _ => hsummary _ _
  · exact hsummary _ _

end StreamInfo

/-! ## Passes -/

namespace Stream

theorem isPrintable_name (c : Command) : Text.IsPrintable c.name := by
  cases c <;> decide

/-- Every command leaves its name, and what it changes as numbers. -/
theorem leaves_execute [Memory] (s : Stream) (c : Command) (r : BitReader) :
    (s.execute c r).run.Leaves Record.IsPrintable := by
  refine Checked.leaves_bind (leaves_note ?_) fun _ => ?_
  · simp only [Record.IsPrintable, isPrintable_name, isPrintable_append_iff,
      isPrintable_toString_iff, isPrintable_nat]
    decide
  cases c
  case verbatim | blockSize =>
    refine Checked.leaves_bind (leaves_of_log_eq_nil rfl) fun x => ?_
    refine Checked.leaves_bind (leaves_note ?_) fun _ => leaves_of_log_eq_nil rfl
    simp only [Record.IsPrintable, isPrintable_append_iff, isPrintable_toString_iff,
      isPrintable_nat]
    decide
  case bitshift =>
    refine Checked.leaves_bind (leaves_of_log_eq_nil rfl) fun x => ?_
    dsimp only
    split
    · refine Checked.leaves_bind (leaves_note ?_) fun _ => leaves_of_log_eq_nil rfl
      simp only [Record.IsPrintable, isPrintable_append_iff, isPrintable_toString_iff,
        isPrintable_nat]
      decide
    · exact leaves_of_log_eq_nil rfl
  case quit =>
    refine Checked.leaves_bind (leaves_note ?_) fun _ => leaves_of_log_eq_nil rfl
    decide
  all_goals exact leaves_of_log_eq_nil rfl

/-- The same holds for a command that is not completed in the pass. -/
theorem leaves_remarks [Memory] (s : Stream) (r : BitReader) :
    (⟨(), s.remarks r⟩ : Logged Unit).Leaves Record.IsPrintable := by
  rw [remarks]
  split
  · exact s.leaves_execute _ _
  · exact leaves_of_log_eq_nil rfl

/-- The missing quit command is reported with the number of bits left over. -/
theorem leaves_endWithoutQuit (s : Stream) (failLevel : Level) (available : Nat) (r : BitReader) :
    (s.endWithoutQuit failLevel available r).Leaves Record.IsPrintable := by
  have hreport := Finding.isPrintable_record (.missingQuit available)
  rw [endWithoutQuit]
  refine (Checked.leaves_report hreport).bind fun outcome => ?_
  cases outcome <;> exact leaves_pure _

theorem leaves_endInTail (s : Stream) (failLevel : Level) (r : BitReader) :
    (s.endInTail failLevel r).Leaves Record.IsPrintable := by
  rw [endInTail]
  split
  · exact (leaves_note (by decide)).bind fun _ => leaves_pure _
  · exact s.leaves_endWithoutQuit _ _ _

/-- A command that needs more input is logged with the number of its first bit. -/
theorem leaves_endAtFault (s : Stream) (flush : Bool) (fault : Fault) (r : BitReader) :
    (s.endAtFault flush fault r).Leaves Record.IsPrintable := by
  rw [endAtFault]
  split
  · refine (leaves_note ?_).bind fun _ => leaves_pure _
    simp only [Record.IsPrintable, isPrintable_append_iff, isPrintable_toString_iff,
      isPrintable_nat]
    decide
  · exact leaves_pure _

/-- **What a pass logs is printable**, by what happens to its next command. -/
theorem leaves_runCommands [Memory] (s : Stream) (failLevel : Level) (flush : Bool)
    (r : BitReader) :
    (s.runCommands failLevel flush r).Leaves Record.IsPrintable := by
  cases hnext : s.next? r with
  | some x =>
    obtain ⟨⟨e, s'⟩, r'⟩ := x
    have := available_lt_of_next? hnext
    rw [runCommands_of_next? hnext]
    refine (s.leaves_remarks r).bind fun _ => ?_
    cases e with
    | silent => exact s'.leaves_runCommands failLevel flush r'
    | pause | frame f | quit => exact leaves_pure _
  | none =>
    by_cases hlen : r.available < Command.minimalBits
    · rw [runCommands_of_short hlen]
      split
      · exact s.leaves_endInTail failLevel r
      · exact leaves_pure _
    · have hlen := Nat.le_of_not_lt hlen
      obtain ⟨fault, hfault⟩ := exists_fault_of_stuck hnext hlen
      rw [runCommands_of_error hlen hfault]
      refine (s.leaves_remarks r).bind fun _ => ?_
      split
      · exact leaves_pure _
      split
      · exact s.leaves_endAtFault false fault r
      split
      · exact s.leaves_endWithoutQuit failLevel _ _
      · exact leaves_pure _
termination_by r.available

end Stream

/-! ## Calls -/

namespace Decoder

/-- A pass over the header logs what the parse of the header does. -/
theorem leaves_readHeader [Memory] (d : Decoder) (flush : Bool) (r : BitReader) :
    (d.readHeader flush r).Leaves Record.IsPrintable := by
  refine (StreamInfo.leaves_read _ _).bind fun outcome => ?_
  cases outcome with
  | error fault => dsimp only; split <;> exact leaves_pure _
  | ok x => dsimp only; split <;> exact leaves_pure _

/-- The end of a pass is logged with the numbers of bytes and bits, and with the frame size. -/
theorem leaves_settle (d : Decoder) (ending : Stream.PassEnd) (r : BitReader) :
    (d.settle ending r).Leaves Record.IsPrintable := by
  rw [settle]
  split
  · exact leaves_pure _
  · refine (leaves_note ?_).bind fun _ => ?_
    · simp only [Record.IsPrintable, isPrintable_append_iff, isPrintable_toString_iff,
        isPrintable_nat]
      decide
    split
    · refine (leaves_note ?_).bind fun _ => leaves_pure _
      simp only [Record.IsPrintable, isPrintable_append_iff, isPrintable_toString_iff,
        isPrintable_nat]
      decide
    · exact leaves_pure _

/-- What one pass logs is printable, in the header and behind it. -/
theorem leaves_runPass [Memory] (d : Decoder) (flush : Bool) :
    (d.runPass flush).Leaves Record.IsPrintable := by
  rw [runPass]
  split
  · exact leaves_pure _
  dsimp only
  split
  · refine (d.leaves_readHeader flush _).bind fun _ => ?_
    split
    · exact leaves_pure _
    · exact leaves_settle _ _ _
  · refine (Stream.leaves_runCommands _ _ _ _).bind fun _ => (leaves_pure _).bind fun _ => ?_
    split
    · exact leaves_pure _
    · exact leaves_settle _ _ _

/-- So is what one call logs. -/
theorem leaves_decode [Memory] (d : Decoder) (offered : Option Bytes) :
    (d.decode offered).Leaves Record.IsPrintable := by
  rw [decode]
  split
  · exact leaves_pure _
  · exact leaves_pure _
  · dsimp only
    split
    · exact leaves_pure _
    · split
      · exact (leaves_runPass _ _).bind fun _ => leaves_pure _
      · exact leaves_pure _

/-! ## Whole sources -/

variable {σ ε : Type}

/-- What the calls for one chunk log is printable, by induction on their number. -/
theorem leaves_feedWithin [Memory] (listener : Listener σ ε) (calls : Nat) (d : Decoder) (state : σ)
    (chunk : Bytes) : (feedWithin listener calls d state chunk).Leaves Record.IsPrintable := by
  induction calls generalizing d state chunk with
  | zero => exact leaves_pure _
  | succ calls ih =>
    rw [feedWithin]
    refine (d.leaves_decode _).bind fun answer => ?_
    rcases answer with ⟨d', fault | output⟩
    · exact leaves_pure _
    dsimp only
    split
    · exact leaves_pure _
    split
    · exact leaves_pure _
    split
    · exact leaves_pure _
    · exact ih _ _ _

/-- So is what the flushing calls log. -/
theorem leaves_drainWithin [Memory] (listener : Listener σ ε) (calls : Nat) (d : Decoder)
    (state : σ) :
    (drainWithin listener calls d state).Leaves Record.IsPrintable := by
  induction calls generalizing d state with
  | zero => exact leaves_pure _
  | succ calls ih =>
    rw [drainWithin]
    refine (d.leaves_decode _).bind fun answer => ?_
    rcases answer with ⟨d', fault | output⟩
    · exact leaves_pure _
    dsimp only
    split
    · exact leaves_pure _
    split
    · exact leaves_pure _
    · exact ih _ _

end Decoder

/-- A loop over the chunks of a source leaves what its consumer leaves. -/
theorem Reader.leaves_handOut {σ ε : Type} {P : Record → Prop} {consumer : Consumer σ ε}
    (h : ∀ state chunk, (consumer.onChunk state chunk).Leaves P) (size : Nat) (r : Reader)
    (state : σ) : (r.handOut consumer size state).Leaves P := by
  rw [handOut]
  split
  · exact leaves_pure _
  · exact leaves_pure _
  · rename_i b chunk r' hread
    have : r'.rest.length < r.rest.length := by
      rw [← read_spec hread, List.length_append, List.length_cons]
      omega
    refine (h _ _).bind fun answer => ?_
    rcases answer with ⟨state', e | _ | _⟩
    · exact leaves_pure _
    · exact leaves_pure _
    · exact leaves_handOut h size r' state'
termination_by r.rest.length

theorem Reader.leaves_forEachChunk [Memory] {σ ε : Type} {P : Record → Prop}
    {consumer : Consumer σ ε} (h : ∀ state chunk, (consumer.onChunk state chunk).Leaves P)
    (size : Nat) (r : Reader) (state : σ) : (r.forEachChunk consumer size state).Leaves P := by
  rw [forEachChunk]
  split
  · exact leaves_pure _
  · exact (leaves_handOut h _ _ _).bind fun _ => leaves_pure _

/-- **What a decoder logs is printable**, whatever the source holds and whoever listens. -/
theorem Decoder.leaves_takeIn [Memory] {σ : Type} (listener : Listener σ Failure) (size : Nat)
    (reader : Reader) (d : Decoder) (state : σ) :
    (d.takeIn listener size reader state).Leaves Record.IsPrintable := by
  refine (Reader.leaves_forEachChunk (fun intake chunk => ?_) _ _ _).bind fun handed => ?_
  · exact (leaves_feedWithin listener _ _ _ _).bind fun _ => leaves_pure _
  split
  · exact leaves_pure _
  split
  · exact leaves_pure _
  refine Logged.Leaves.bind ?_ fun _ => leaves_pure _
  rw [Intake.complete]
  split
  · exact leaves_pure _
  · exact (leaves_drainWithin listener _ _ _).bind fun _ => leaves_pure _

end LosslessAudio
