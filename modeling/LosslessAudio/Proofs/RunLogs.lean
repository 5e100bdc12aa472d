import LosslessAudio.Proofs.LogLines
import LosslessAudio.Proofs.PathText
import LosslessAudio.Proofs.Transcoding

/-!
# What a run logs

The messages of a run are printable, but for the paths that some of them show: the paths that the
run is given, and the place of its audio file, whose text comes from one of those.

* `Recorder.Within.yields_record` — a recorder that writes to no other place than some paths shows
  no other path.
* `Program.leaves_run`, `Program.exists_showsPath` — what a run shows at most, and what it shows.
* `Program.json_lines_read_back` — which lines of a run are JSON, and what they say.
-/

set_option autoImplicit false

namespace LosslessAudio

/-! ## Records and values -/

namespace Logged

variable {α β : Type} {P : Record → Prop} {Q : α → Prop} {R : β → Prop}

/-- Every record that a computation leaves has a property, and its value has another. -/
structure Yields (P : Record → Prop) (Q : α → Prop) (x : Logged α) : Prop where
  leaves : x.Leaves P
  value : Q x.value

theorem yields_pure {a : α} (h : Q a) : (pure a : Logged α).Yields P Q :=
  ⟨leaves_pure a, h⟩

/-- The second of two computations may rely on the value of the first one. -/
theorem Yields.bind {x : Logged α} {f : α → Logged β} (hx : x.Yields P Q)
    (hf : ∀ a, Q a → (f a).Yields P R) : (x >>= f).Yields P R := by
  have hrest := hf x.value hx.value
  refine ⟨fun r hr => ?_, hrest.value⟩
  rw [log_bind] at hr
  exact (List.mem_append.1 hr).elim (hx.leaves r) (hrest.leaves r)

theorem Yields.leaves_bind {x : Logged α} {f : α → Logged β} (hx : x.Yields P Q)
    (hf : ∀ a, Q a → (f a).Leaves P) : (x >>= f).Leaves P :=
  (hx.bind (R := fun _ => True) fun a ha => ⟨hf a ha, trivial⟩).leaves

theorem Leaves.yields_bind {x : Logged α} {f : α → Logged β} (hx : x.Leaves P)
    (hf : ∀ a, (f a).Yields P R) : (x >>= f).Yields P R :=
  Yields.bind ⟨hx, trivial⟩ fun a (_ : True) => hf a

end Logged

open Logged (leaves_pure leaves_note yields_pure)
open Text (isPrintable_append_iff isPrintable_toString_iff isPrintable_nat)

/-! ## Records that show a path -/

namespace Record

/-- A record shows a path between printable words. -/
def ShowsPath (r : Record) (path : Path) : Prop :=
  r.level = .info ∧ ∃ before after, Text.IsPrintable before ∧ Text.IsPrintable after ∧
    r.message = before ++ path.text ++ after

/-- A record has a printable message, or shows one of some paths. -/
def ShowsAtMost (paths : List Path) (r : Record) : Prop :=
  r.IsPrintable ∨ ∃ path ∈ paths, r.ShowsPath path

variable {paths : List Path} {origin : Origin} {words : String}

/-- A message that shows a path is as legible as the path. -/
theorem ShowsPath.isLegible_iff {r : Record} {path : Path} (h : r.ShowsPath path) :
    Text.IsLegible r.message ↔ Text.IsLegible path.text := by
  obtain ⟨-, before, after, hbefore, hafter, hmessage⟩ := h
  rw [hmessage, Text.isLegible_append_iff, Text.isLegible_append_iff]
  exact ⟨fun h => h.1.2, fun h => ⟨⟨hbefore.isLegible, h⟩, hafter.isLegible⟩⟩

/-- A path at the end of a message. -/
theorem showsPath_append (hwords : Text.IsPrintable words) (path : Path) :
    ShowsPath ⟨.info, origin, words ++ path.text⟩ path :=
  ⟨rfl, words, "", hwords, by decide, String.append_empty.symm⟩

theorem leaves_printable {level : Level} {message : String} (h : Text.IsPrintable message) :
    (Logged.note level origin message).Leaves (ShowsAtMost paths) :=
  leaves_note (.inl h)

theorem leaves_path {path : Path} (hmem : path ∈ paths) (hwords : Text.IsPrintable words) :
    (Logged.note .info origin (words ++ path.text)).Leaves (ShowsAtMost paths) :=
  leaves_note (.inr ⟨path, hmem, showsPath_append hwords path⟩)

end Record

theorem Logged.Leaves.showsAtMost {α : Type} {x : Logged α} (h : x.Leaves Record.IsPrintable)
    {paths : List Path} : x.Leaves (Record.ShowsAtMost paths) :=
  h.mono fun _ => .inl

open Record (leaves_printable leaves_path)

/-! ## Recording -/

namespace Recorder

variable {r : Recorder} {paths : List Path}

theorem isPrintable_infoMessage (info : StreamInfo) :
    Text.IsPrintable (begin.infoMessage info) := by
  unfold begin.infoMessage
  simp only [isPrintable_append_iff, isPrintable_toString_iff, isPrintable_nat,
    StreamInfo.isPrintable_description]
  decide

/-- The place of the audio file is shown when the file is created. -/
theorem Within.yields_begin (h : r.Within paths) (creationFault? : Path → Option FileFault)
    (info : StreamInfo) :
    (r.begin creationFault? info).Yields (Record.ShowsAtMost paths) (·.1.Within paths) := by
  refine ⟨?_, h.begin creationFault? info⟩
  refine (leaves_printable (isPrintable_infoMessage info)).bind fun _ => ?_
  cases htarget : r.target with
  | none => exact leaves_pure _
  | some target =>
    dsimp only
    cases haudio : r.createAudio creationFault? target info with
    | error e => exact leaves_pure _
    | ok created =>
      obtain ⟨path, fresh⟩ := created
      have hmem : path ∈ paths := path_of_createAudio haudio ▸ h.place target htarget
      exact (leaves_path hmem (by decide)).bind fun _ => leaves_pure _

/-- It is shown again when the file is finished. -/
theorem Within.yields_finish (h : r.Within paths) :
    r.finish.Yields (Record.ShowsAtMost paths) (·.1.Within paths) := by
  rw [Recorder.finish]
  cases haudio : r.audio with
  | none => exact yields_pure h
  | some x =>
    obtain ⟨path, file⟩ := x
    dsimp only
    cases file.finish with
    | error fault => exact yields_pure h
    | ok file' =>
      have hmem := h.audio path file haudio
      refine (leaves_path hmem (by decide)).yields_bind fun _ => yields_pure ⟨h.place, ?_⟩
      rintro path' file'' hsome
      cases hsome
      exact hmem

theorem Within.yields_handle (h : r.Within paths) (creationFault? : Path → Option FileFault)
    (event : Event) :
    (r.handle creationFault? event).Yields (Record.ShowsAtMost paths) (·.1.Within paths) := by
  cases event with
  | info info => exact h.yields_begin creationFault? info
  | frame frame => exact yields_pure (h.add frame)

/-- **What a recorder logs**, by induction on what it hears. -/
theorem Within.yields_record (h : r.Within paths) (creationFault? : Path → Option FileFault)
    (events : List Event) :
    (Transcoding.record creationFault? r events).Yields (Record.ShowsAtMost paths)
      (·.1.Within paths) := by
  induction events generalizing r with
  | nil => exact yields_pure h
  | cons event events ih =>
    refine (h.yields_handle creationFault? event).bind fun (r', outcome) hstep => ?_
    cases outcome with
    | error e => exact yields_pure hstep
    | ok _ => exact ih hstep

theorem Within.leaves_recordDelivery (h : r.Within paths) (creationFault? : Path → Option FileFault)
    (delivery : Delivery) :
    (Transcoding.recordDelivery creationFault? r delivery).Leaves (Record.ShowsAtMost paths) := by
  have hrecord := h.yields_record creationFault? delivery.events
  refine hrecord.leaves_bind fun (r', outcome) hrecord => ?_
  cases outcome with
  | error e => exact leaves_pure _
  | ok _ =>
    have hfinish := hrecord.yields_finish.leaves
    dsimp only
    split
    · exact leaves_pure _
    · exact hfinish.bind fun _ => leaves_pure _
    · refine hfinish.bind fun (r'', outcome) => ?_
      cases outcome <;> exact leaves_pure _
    · exact leaves_pure _

end Recorder

/-! ## Tasks -/

theorem Duration.isPrintable_text (seconds : Float) : Text.IsPrintable (text seconds) := by
  unfold text
  simp only [isPrintable_append_iff, isPrintable_toString_iff, Text.isPrintable_padded]
  decide

/-- The decoder in front of a recorder logs no path. -/
theorem Delivery.leaves_ofSource [Memory] (heard : Bool) (opened : Except FileFault Reader)
    (size : Nat) (d : Decoder) : (ofSource heard opened size d).Leaves Record.IsPrintable := by
  rcases opened with fault | reader
  · exact leaves_pure _
  refine (Decoder.leaves_takeIn _ _ _ _ _).bind fun taken => ?_
  rcases taken with breakdown | ⟨intake, e | _⟩
  · exact leaves_pure _
  · exact leaves_pure _
  · refine (leaves_note ?_).bind fun _ => leaves_pure _
    simp only [Record.IsPrintable, isPrintable_append_iff, isPrintable_toString_iff,
      isPrintable_nat]
    decide

theorem Report.leaves_ofReader [Memory] (headerOnly : Bool) (reader : Reader) (size : Nat)
    (failLevel : Level) :
    (ofReader headerOnly reader size failLevel).Leaves Record.IsPrintable := by
  refine (Decoder.leaves_takeIn _ _ _ _ _).bind fun taken => ?_
  rcases taken with breakdown | ⟨intake, e | _⟩ <;> exact leaves_pure _

namespace Transcoding

theorem isPrintable_summary (r : Recorder) : Text.IsPrintable (summary r) := by
  unfold summary
  simp only [isPrintable_append_iff, isPrintable_toString_iff, isPrintable_nat,
    Duration.isPrintable_text]
  decide

variable (t : Transcoding)

/-- The paths that a transcoding is given. -/
def given : List Path :=
  t.input :: t.output.toList

/-- The record with which a transcoding begins. -/
def announcement : Record :=
  ⟨.info, .transcoding,
    s!"Decoding Shorten stream: {t.input.text} (strict mode: {t.strict})"⟩

/-- The path of the source is shown at the start. -/
theorem showsPath_announcement : t.announcement.ShowsPath t.input := by
  refine ⟨rfl, "Decoding Shorten stream: ", s!" (strict mode: {t.strict})", by decide, ?_,
    ?_⟩
  · cases t.strict <;> decide
  · simp only [announcement, String.append_assoc]
    rfl

/-- A transcoding announces its source and its target. -/
theorem log_announce : t.announce.log =
    [t.announcement, match t.output with
      | some path => ⟨.info, .transcoding, "Output path specified: " ++ path.text⟩
      | none =>
        ⟨.info, .transcoding, "No output path specified, decoding without writing audio"⟩] := by
  rw [announce]
  cases t.output <;> rfl

/-- Each path that a transcoding is given is shown. -/
theorem exists_showsPath {path : Path} (hmem : path ∈ t.given) :
    ∃ r ∈ t.announce.log, r.ShowsPath path := by
  rw [log_announce]
  rcases List.mem_cons.1 hmem with rfl | hmem
  · exact ⟨_, .head _, t.showsPath_announcement⟩
  · rw [Option.mem_toList.1 hmem]
    exact ⟨_, .tail _ (.head _), Record.showsPath_append (by decide) path⟩

/-- These two records show no other path. -/
theorem leaves_announce : t.announce.Leaves (Record.ShowsAtMost (t.given ++ t.places)) := by
  rw [Logged.Leaves, log_announce]
  refine List.forall_mem_cons.2 ⟨.inr ⟨t.input, .head _, t.showsPath_announcement⟩, ?_⟩
  cases houtput : t.output with
  | none => exact List.forall_mem_singleton.2 (.inl (by decide))
  | some path =>
    have hmem : path ∈ t.given ++ t.places := by simp [given, houtput]
    exact List.forall_mem_singleton.2
      (.inr ⟨path, hmem, Record.showsPath_append (by decide) path⟩)

/-- **A transcoding shows the paths that it is given, and its audio file**, and logs nothing else
that is not printable. -/
theorem leaves_run [Memory] (surroundings : Surroundings) :
    (t.run surroundings).Leaves (Record.ShowsAtMost (t.given ++ t.places)) := by
  rw [run]
  refine t.leaves_announce.bind fun _ => ?_
  dsimp only
  split
  on_goal 1 => refine (leaves_printable (by decide)).bind fun _ => ?_
  all_goals
    split
    · exact leaves_pure _
    refine (Delivery.leaves_ofSource _ _ _ _).showsAtMost.bind fun delivery => ?_
    refine ((t.within_start.mono (List.subset_append_right _ _)).leaves_recordDelivery _
      delivery).bind fun recorded => ?_
    rcases recorded with breakdown | ⟨r, e | _⟩
    · exact leaves_pure _
    · exact leaves_pure _
    · exact (leaves_printable (isPrintable_summary r)).bind fun _ => leaves_pure _

end Transcoding

/-- The paths that a task is given. -/
def Task.given : Task → List Path
  | .transcode t => t.given
  | .inspect input _ => [input]

/-- Where a task puts an audio file. -/
def Task.places : Task → List Path
  | .transcode t => t.places
  | .inspect _ _ => []

/-- The place of an audio file has no foreign characters that the path given for it has not. -/
theorem AudioFormat.isLegible_pathAt (format : AudioFormat) {target : Path}
    (h : Text.IsLegible target.text) : Text.IsLegible (format.pathAt target).text := by
  have hne : format.name.toUTF8.toList ≠ [] := by cases format <;> decide +kernel
  have hname : Text.characters format.name.toUTF8.toList = format.name.toList := by
    cases format <;> decide +kernel
  have hprintable : Text.IsPrintable format.name := by cases format <;> decide
  intro c hc
  rcases Path.mem_text_withSuffix hne hc with hc | rfl | rfl | hc
  · exact h c hc
  · exact Text.not_isForeign_of_printable (by decide)
  · exact Text.not_isForeign_of_printable (by decide)
  · exact hprintable.isLegible c (hname ▸ hc)

/-- Places are legible if the paths that a task is given are. -/
theorem Task.isLegible_of_mem_places {task : Task}
    (h : ∀ path ∈ task.given, Text.IsLegible path.text) {path : Path} (hmem : path ∈ task.places) :
    Text.IsLegible path.text := by
  cases task with
  | inspect input yaml => cases hmem
  | transcode t =>
    obtain ⟨target, htarget, rfl⟩ := Option.map_eq_some_iff.1 (Option.mem_toList.1 hmem)
    exact t.format.isLegible_pathAt (h target (.tail _ (Option.mem_toList.2 htarget)))

namespace Program

variable (surroundings : Surroundings)

/-- An inspection shows the path of its source only. -/
theorem leaves_inspect [Memory] (strict : Bool) (input : Path) (yaml : Bool) :
    (inspect surroundings strict input yaml).Leaves (Record.ShowsAtMost [input]) := by
  rw [inspect]
  refine (leaves_path (.head _) (by decide)).bind fun _ => ?_
  split
  · exact leaves_pure _
  dsimp only
  split
  on_goal 1 => refine (leaves_printable (by decide)).bind fun _ => ?_
  all_goals
    refine (Report.leaves_ofReader _ _ _ _).showsAtMost.bind fun report => ?_
    rcases report with breakdown | e | _ | report <;> exact leaves_pure _

/-- **A run shows the paths that it is given, and the place of its audio file**, and logs nothing
else that is not printable. -/
theorem leaves_run [Memory] (i : Invocation) :
    (run surroundings i).Leaves (Record.ShowsAtMost (i.task.given ++ i.task.places)) := by
  rw [run]
  cases i.task with
  | transcode t =>
    refine (t.leaves_run surroundings).bind fun recorded => ?_
    rcases recorded with breakdown | ⟨recorder, e | _⟩ <;> exact leaves_pure _
  | inspect input yaml => exact leaves_inspect surroundings i.strict input yaml

/-- Each path that a run is given is shown. -/
theorem exists_showsPath [Memory] (i : Invocation) {path : Path} (hmem : path ∈ i.task.given) :
    ∃ r ∈ (run surroundings i).log, r.ShowsPath path := by
  rw [run]
  cases htask : i.task with
  | transcode t =>
    rw [htask] at hmem
    obtain ⟨r, hr, hshows⟩ := t.exists_showsPath hmem
    have hrun : r ∈ (t.run surroundings).log := by
      rw [Transcoding.run, Logged.log_bind]
      exact List.mem_append_left _ hr
    exact ⟨r, List.mem_append_left _ hrun, hshows⟩
  | inspect input yaml =>
    rw [htask] at hmem
    obtain rfl := List.mem_singleton.1 hmem
    have hwords : Text.IsPrintable "Analyzing Shorten stream: " := by decide
    exact ⟨_, List.mem_append_left _ (.head _), Record.showsPath_append hwords path⟩

/-- A run logs only legible messages that are shown at some level if the paths that it is given are
legible, or not shown. -/
theorem isLegible_iff [Memory] (i : Invocation) :
    (∀ r ∈ (run surroundings i).log, r.passes i.filter → Text.IsLegible r.message) ↔
      (i.filter.any (Level.info ≤ ·) → ∀ path ∈ i.task.given, Text.IsLegible path.text) := by
  constructor
  · intro h hfilter path hmem
    obtain ⟨r, hr, hshows⟩ := exists_showsPath surroundings i hmem
    have hpasses : r.passes i.filter := by rwa [Record.passes, hshows.1]
    exact hshows.isLegible_iff.1 (h r hr hpasses)
  · intro h r hr hpasses
    rcases leaves_run surroundings i r hr with hprintable | ⟨path, hmem, hshows⟩
    · exact hprintable.isLegible
    · have hgiven := h (by rwa [Record.passes, hshows.1] at hpasses)
      rw [hshows.isLegible_iff]
      rcases List.mem_append.1 hmem with hmem | hmem
      · exact hgiven path hmem
      · exact i.task.isLegible_of_mem_places hgiven hmem

/-- **Which log lines are JSON.**  The line of any record reads back as that record, and as nothing
else, if its message has no foreign characters; otherwise it is no JSON text.  All lines of a run
read back if its paths have no foreign characters, as far as records that show them are shown at
all. -/
theorem json_lines_read_back [Memory] {time : String} (htime : Json.IsPlainText time) :
    (∀ (r : Record) (v : Json.Value), Json.IsText (LogFormat.json.line time r) v ↔
      v = r.jsonValue time ∧ Text.IsLegible r.message) ∧
    ∀ (surroundings : Surroundings) (i : Invocation), i.logFormat = .json →
      ((∀ r ∈ (run surroundings i).log, r.passes i.filter →
          Json.IsText (i.logFormat.line time r) (r.jsonValue time)) ↔
        (i.filter.any (Level.info ≤ ·) → ∀ path ∈ i.task.given, Text.IsLegible path.text)) := by
  have hline (r : Record) (v : Json.Value) : Json.IsText (LogFormat.json.line time r) v ↔
      v = r.jsonValue time ∧ Text.IsLegible r.message := r.isText_json_iff htime v
  refine ⟨hline, fun surroundings i hformat => ?_⟩
  rw [← isLegible_iff surroundings i, hformat]
  refine forall₃_congr fun r _ _ => ?_
  rw [hline, eq_self_iff_true, true_and]

open scoped Memory in
/-- A message with a tab, a quote, a backslash and a letter beyond ASCII, and a run on a path with a
quote. -/
theorem json_lines_read_back_quotes :
    let time := "2026-01-01T00:00:00Z"
    let r : Record := ⟨.info, .inspection, "\t\"\\é"⟩
    let surroundings : Surroundings :=
      ⟨[], fun _ => .closed .notFound, fun _ => none, fun p q => p == q, []⟩
    let i : Invocation := ⟨some .info, .json, false, false, .inspect ⟨[0x22, 0x2E]⟩ false⟩
    Json.IsPlainText time ∧ i.logFormat = .json ∧
      Json.IsText (LogFormat.json.line time r) (r.jsonValue time) ∧
      ∀ r ∈ (run surroundings i).log, r.passes i.filter →
        Json.IsText (i.logFormat.line time r) (r.jsonValue time) := by
  intro time r surroundings i
  have htime : Json.IsPlainText time := by decide
  have hmessage : Text.IsLegible r.message := by
    decide +kernel
  have hpath : Text.IsPrintable (Path.text ⟨[0x22, 0x2E]⟩) := by decide +kernel
  obtain ⟨hline, hlines⟩ := json_lines_read_back htime
  refine ⟨htime, rfl, (hline r _).2 ⟨rfl, hmessage⟩, (hlines surroundings i rfl).2 fun _ => ?_⟩
  exact List.forall_mem_singleton.2 hpath.isLegible

open scoped Memory in
/-- A run on a path with a combining mark has a line that is no JSON text. -/
theorem json_line_unreadable :
    let time := "2026-01-01T00:00:00Z"
    let surroundings : Surroundings :=
      ⟨[], fun _ => .closed .notFound, fun _ => none, fun p q => p == q, []⟩
    let input : Path := ⟨[0x61, 0xCC, 0x81, 0x2E, 0x73, 0x68, 0x6E]⟩
    let i : Invocation := ⟨some .info, .json, false, false, .inspect input false⟩
    ∃ r ∈ (run surroundings i).log, r.passes i.filter ∧
      ∀ v, ¬Json.IsText (i.logFormat.line time r) v := by
  intro time surroundings input i
  obtain ⟨r, hr, hshows⟩ := exists_showsPath surroundings i (.head _)
  have hmark : '\u0301' ∈ input.text.toList := by decide +kernel
  have hforeign : Text.IsForeign '\u0301' := by
    have hmem : (0x300, 0x36F) ∈ Text.formlessRanges.toList := by decide
    exact ⟨Text.isFormless_of_mem hmem (by decide), by decide⟩
  refine ⟨r, hr, ?_, fun v hread => ?_⟩
  · rw [Record.passes, hshows.1]
    decide
  · have hlegible := ((r.isText_json_iff (by decide) v).1 hread).2
    exact hshows.isLegible_iff.1 hlegible _ hmark hforeign

end Program

end LosslessAudio
