import LosslessAudio.Wave.Format

/-!
# Which WAVE headers are accepted

`WaveFormat.parse` takes a header apart from the front.  Here its bytes are looked at by their
places: `Leads` goes from the head of one chunk to that of the next by the length that stands there,
`FormatAt` says where the format chunk is, and from this `Accepts` and `Refuses` say what becomes of
a header.  A header is refused for the first thing that is wrong with it, in the order in which the
bytes are needed, and a byte that is not there counts as a missing format chunk.

* `accepts_or_refuses` — one of the two holds of every header.
* `outcome_of_accepts`, `outcome_of_refuses` — what is read of a header of either kind.
* `outcome_parse_iff` — hence the headers that are accepted are those of the grammar, with the
  sample rate it gives them, and every other one is refused for the reason it gives.
-/

set_option autoImplicit false

namespace LosslessAudio

namespace WaveFormat

variable {h : Bytes} {o o' n length : Nat} {tag xs ys : Bytes}

/-! ## Bytes by their places -/

/-- The `n` bytes from place `o` on, if there are so many. -/
def bytesAt? (h : Bytes) (o n : Nat) : Option Bytes :=
  if o + n ≤ h.length then some ((h.drop o).take n) else none

/-- The number that the `n` bytes from place `o` on write. -/
def numberAt? (h : Bytes) (o n : Nat) : Option Nat :=
  (bytesAt? h o n).map Wire.toNat

theorem le_of_bytesAt? (hxs : bytesAt? h o n = some xs) : o + n ≤ h.length := by
  rw [bytesAt?] at hxs
  split at hxs
  · assumption
  · cases hxs

theorem le_of_numberAt? {k : Nat} (hk : numberAt? h o n = some k) : o + n ≤ h.length := by
  obtain ⟨xs, hxs, -⟩ := Option.map_eq_some_iff.1 hk
  exact le_of_bytesAt? hxs

/-- There are bytes, or there are not. -/
theorem lt_or_bytesAt? (h : Bytes) (o n : Nat) :
    h.length < o + n ∨ ∃ xs, bytesAt? h o n = some xs := by
  rcases Nat.lt_or_ge h.length (o + n) with hlt | hge
  · exact .inl hlt
  · exact .inr ⟨_, if_pos hge⟩

theorem lt_or_numberAt? (h : Bytes) (o n : Nat) :
    h.length < o + n ∨ ∃ k, numberAt? h o n = some k := by
  rcases lt_or_bytesAt? h o n with hlt | ⟨xs, hxs⟩
  · exact .inl hlt
  · exact .inr ⟨_, by rw [numberAt?, hxs, Option.map_some]⟩

theorem bytesAt?_add {m : Nat} (hxs : bytesAt? h o n = some xs)
    (hys : bytesAt? h (o + n) m = some ys) : bytesAt? h o (n + m) = some (xs ++ ys) := by
  have hle := le_of_bytesAt? hys
  rw [bytesAt?, if_pos (le_of_bytesAt? hxs), Option.some.injEq] at hxs
  rw [bytesAt?, if_pos hle, Option.some.injEq, ← List.drop_drop] at hys
  rw [bytesAt?, if_pos (by omega), ← hxs, ← hys, List.take_add]

theorem length_of_bytesAt? (hxs : bytesAt? h o n = some xs) : xs.length = n := by
  have hle := le_of_bytesAt? hxs
  rw [bytesAt?, if_pos hle, Option.some.injEq] at hxs
  rw [← hxs, List.length_take, List.length_drop]
  omega

theorem take?_of_bytesAt? (hxs : bytesAt? h o n = some xs) :
    take? n (h.drop o) = .ok (xs, h.drop (o + n)) := by
  have hle := le_of_bytesAt? hxs
  rw [bytesAt?, if_pos hle, Option.some.injEq] at hxs
  rw [take?, ensure, if_pos (by rw [List.length_drop]; omega), ok_bind, List.splitAt_eq, hxs,
    List.drop_drop]
  rfl

theorem take?_of_lt (hn : 0 < n) (hlt : h.length < o + n) :
    take? n (h.drop o) = .error .missingFormatChunk := by
  rw [take?, ensure, if_neg (by rw [List.length_drop]; omega)]
  rfl

theorem number?_of_numberAt? {k : Nat} (hk : numberAt? h o n = some k) :
    number? n (h.drop o) = .ok (k, h.drop (o + n)) := by
  obtain ⟨xs, hxs, rfl⟩ := Option.map_eq_some_iff.1 hk
  rw [number?, take?_of_bytesAt? hxs]
  rfl

theorem number?_of_lt (hn : 0 < n) (hlt : h.length < o + n) :
    number? n (h.drop o) = .error .missingFormatChunk := by
  rw [number?, take?_of_lt hn hlt]
  rfl

/-! ## The grammar -/

/-- The tags that every WAVE file starts with. -/
structure Tagged (h : Bytes) : Prop where
  riff : bytesAt? h 0 4 = some (Chunk.tagOf "RIFF")
  wave : bytesAt? h 8 4 = some (Chunk.tagOf "WAVE")

/-- A chunk other than the format chunk, by the place of its head. -/
structure OtherAt (h : Bytes) (o : Nat) (name : Bytes) (length : Nat) : Prop where
  tag : bytesAt? h o 4 = some name
  ne : name ≠ Chunk.tagOf "fmt "
  stated : numberAt? h (o + 4) 4 = some length

/-- From the head of one chunk to the head of another one behind it, over chunks that are not format
chunks. -/
inductive Leads (h : Bytes) : Nat → Nat → Prop
  | here (o : Nat) : Leads h o o
  | next {o o' : Nat} {name : Bytes} {length : Nat} (hother : OtherAt h o name length)
      (hleads : Leads h (o + 8 + length) o') : Leads h o o'

theorem Leads.trans {o'' : Nat} (hleads : Leads h o o') (hleads' : Leads h o' o'') :
    Leads h o o'' := by
  induction hleads with
  | here => exact hleads'
  | next hother _ ih => exact .next hother (ih hleads')

/-- The first format chunk has its head here, with this length in it. -/
structure FormatAt (h : Bytes) (o length : Nat) : Prop where
  tagged : Tagged h
  leads : Leads h 12 o
  tag : bytesAt? h o 4 = some (Chunk.tagOf "fmt ")
  stated : numberAt? h (o + 4) 4 = some length

/-- The headers of 16-bit linear PCM. -/
inductive Accepts (h : Bytes) (rate : Nat) : Prop
  | intro {o length : Nat} (format : FormatAt h o length) (hlength : 16 ≤ length)
      (inside : o + 24 ≤ h.length) (pcm : numberAt? h (o + 8) 2 = some 1)
      (sampleRate : numberAt? h (o + 12) 4 = some rate) (width : numberAt? h (o + 22) 2 = some 16)

/-- The first thing that is wrong with a header. -/
inductive Refuses (h : Bytes) : WaveFault → Prop
  | riffCut (hcut : h.length < 4) : Refuses h .missingFormatChunk
  | riff {tag : Bytes} (htag : bytesAt? h 0 4 = some tag) (hne : tag ≠ Chunk.tagOf "RIFF") :
      Refuses h .missingRiffTag
  | waveCut (hriff : bytesAt? h 0 4 = some (Chunk.tagOf "RIFF")) (hcut : h.length < 12) :
      Refuses h .missingFormatChunk
  | wave {tag : Bytes} (hriff : bytesAt? h 0 4 = some (Chunk.tagOf "RIFF"))
      (htag : bytesAt? h 8 4 = some tag) (hne : tag ≠ Chunk.tagOf "WAVE") :
      Refuses h .missingWaveTag
  | headCut {o : Nat} (htagged : Tagged h) (hleads : Leads h 12 o) (hcut : h.length < o + 8) :
      Refuses h .missingFormatChunk
  | tooShort {o length : Nat} (hformat : FormatAt h o length) (hlength : length < 16) :
      Refuses h (.formatChunkTooShort length)
  | formatCut {o length : Nat} (hformat : FormatAt h o length) (hlength : 16 ≤ length)
      (hcut : h.length < o + 10) : Refuses h .missingFormatChunk
  | format {o length format : Nat} (hformat : FormatAt h o length) (hlength : 16 ≤ length)
      (hnumber : numberAt? h (o + 8) 2 = some format) (hne : format ≠ 1) :
      Refuses h (.unsupportedFormat format)
  | bodyCut {o length : Nat} (hformat : FormatAt h o length) (hlength : 16 ≤ length)
      (hpcm : numberAt? h (o + 8) 2 = some 1) (hcut : h.length < o + 24) :
      Refuses h .missingFormatChunk
  | width {o length bits : Nat} (hformat : FormatAt h o length) (hlength : 16 ≤ length)
      (hpcm : numberAt? h (o + 8) 2 = some 1) (hnumber : numberAt? h (o + 22) 2 = some bits)
      (hne : bits ≠ 16) : Refuses h (.unsupportedSampleWidth bits)

/-- From the head of any chunk, the chunks lead to a format chunk or to the end of the header. -/
theorem exists_leads (h : Bytes) (o : Nat) :
    ∃ o', Leads h o o' ∧ (h.length < o' + 8 ∨
      ∃ length, bytesAt? h o' 4 = some (Chunk.tagOf "fmt ") ∧
        numberAt? h (o' + 4) 4 = some length) := by
  induction hn : h.length - o using Nat.strongRecOn generalizing o with
  | ind n ih =>
    rcases lt_or_numberAt? h (o + 4) 4 with hcut | ⟨length, hlength⟩
    · exact ⟨o, .here o, .inl (by omega)⟩
    have hle := le_of_numberAt? hlength
    obtain ⟨tag, htag⟩ : ∃ tag, bytesAt? h o 4 = some tag := ⟨_, if_pos (by omega)⟩
    by_cases hfmt : tag = Chunk.tagOf "fmt "
    · exact ⟨o, .here o, .inr ⟨length, hfmt ▸ htag, hlength⟩⟩
    · obtain ⟨o', hleads, hend⟩ := ih _ (by omega) (o + 8 + length) rfl
      exact ⟨o', .next ⟨htag, hfmt, hlength⟩ hleads, hend⟩

/-- **Every header is accepted or refused.** -/
theorem accepts_or_refuses (h : Bytes) : (∃ rate, Accepts h rate) ∨ ∃ e, Refuses h e := by
  rcases lt_or_bytesAt? h 0 4 with hcut | ⟨riff, hriff⟩
  · exact .inr ⟨_, .riffCut (by omega)⟩
  by_cases hne : riff = Chunk.tagOf "RIFF"
  case neg => exact .inr ⟨_, .riff hriff hne⟩
  rw [hne] at hriff
  rcases lt_or_bytesAt? h 8 4 with hcut | ⟨wave, hwave⟩
  · exact .inr ⟨_, .waveCut hriff hcut⟩
  by_cases hne : wave = Chunk.tagOf "WAVE"
  case neg => exact .inr ⟨_, .wave hriff hwave hne⟩
  rw [hne] at hwave
  obtain ⟨o, hleads, hcut | ⟨length, htag, hstated⟩⟩ := exists_leads h 12
  · exact .inr ⟨_, .headCut ⟨hriff, hwave⟩ hleads hcut⟩
  have hformat : FormatAt h o length := ⟨⟨hriff, hwave⟩, hleads, htag, hstated⟩
  rcases Nat.lt_or_ge length 16 with hshort | hlength
  · exact .inr ⟨_, .tooShort hformat hshort⟩
  rcases lt_or_numberAt? h (o + 8) 2 with hcut | ⟨format, hnumber⟩
  · exact .inr ⟨_, .formatCut hformat hlength hcut⟩
  by_cases hne : format = 1
  case neg => exact .inr ⟨_, .format hformat hlength hnumber hne⟩
  rw [hne] at hnumber
  rcases lt_or_numberAt? h (o + 22) 2 with hcut | ⟨bits, hbits⟩
  · exact .inr ⟨_, .bodyCut hformat hlength hnumber hcut⟩
  by_cases hne : bits = 16
  case neg => exact .inr ⟨_, .width hformat hlength hnumber hbits hne⟩
  rw [hne] at hbits
  have hle := le_of_numberAt? hbits
  obtain ⟨rate, hrate⟩ : ∃ rate, numberAt? h (o + 12) 4 = some rate :=
    (lt_or_numberAt? h (o + 12) 4).resolve_left (by omega)
  exact .inl ⟨rate, .intro hformat hlength hle hnumber hrate hbits⟩

/-! ## What is read -/

/-! ### The tags of the file -/

/-- What is left to do once the first tag is there. -/
theorem readTags_of_bytesAt? (htag : bytesAt? h 0 4 = some tag) :
    readTags h = ensure (tag = Chunk.tagOf "RIFF") .missingRiffTag >>= fun _ =>
      take? 4 (h.drop 8) >>= fun wave =>
      ensure (wave.1 = Chunk.tagOf "WAVE") .missingWaveTag >>= fun _ => pure wave.2 := by
  have hriff := take?_of_bytesAt? htag
  rw [List.drop_zero] at hriff
  rw [readTags, hriff, ok_bind]
  dsimp only
  rw [List.drop_drop]

theorem readTags_of_riffCut (hcut : h.length < 4) : readTags h = .error .missingFormatChunk := by
  have hriff := take?_of_lt (h := h) (o := 0) (by decide : 0 < 4) (by omega)
  rw [List.drop_zero] at hriff
  rw [readTags, hriff]
  rfl

theorem readTags_of_riff (htag : bytesAt? h 0 4 = some tag) (hne : tag ≠ Chunk.tagOf "RIFF") :
    readTags h = .error .missingRiffTag := by
  rw [readTags_of_bytesAt? htag, ensure, if_neg hne]
  rfl

/-- What is left to do once the first tag is found to be right. -/
theorem readTags_of_riffTag (hriff : bytesAt? h 0 4 = some (Chunk.tagOf "RIFF")) :
    readTags h = take? 4 (h.drop 8) >>= fun wave =>
      ensure (wave.1 = Chunk.tagOf "WAVE") .missingWaveTag >>= fun _ => pure wave.2 := by
  rw [readTags_of_bytesAt? hriff, ensure, if_pos rfl, ok_bind]

theorem readTags_of_waveCut (hriff : bytesAt? h 0 4 = some (Chunk.tagOf "RIFF"))
    (hcut : h.length < 12) : readTags h = .error .missingFormatChunk := by
  rw [readTags_of_riffTag hriff, take?_of_lt (o := 8) (by decide) hcut]
  rfl

theorem readTags_of_wave (hriff : bytesAt? h 0 4 = some (Chunk.tagOf "RIFF"))
    (htag : bytesAt? h 8 4 = some tag) (hne : tag ≠ Chunk.tagOf "WAVE") :
    readTags h = .error .missingWaveTag := by
  rw [readTags_of_riffTag hriff, take?_of_bytesAt? htag, ok_bind, ensure, if_neg hne]
  rfl

theorem readTags_of_tagged (htagged : Tagged h) : readTags h = .ok (h.drop 12) := by
  rw [readTags_of_riffTag htagged.riff, take?_of_bytesAt? htagged.wave, ok_bind, ensure,
    if_pos rfl]
  rfl

/-! ### The chunks -/

/-- The head of a chunk, as it is read in one piece. -/
theorem take?_head (htag : bytesAt? h o 4 = some tag)
    (hlength : numberAt? h (o + 4) 4 = some length) :
    ∃ head, take? 8 (h.drop o) = .ok (head, h.drop (o + 8)) ∧ head.take 4 = tag ∧
      Wire.toNat (head.drop 4) = length := by
  obtain ⟨ys, hys, rfl⟩ := Option.map_eq_some_iff.1 hlength
  have hfour := length_of_bytesAt? htag
  exact ⟨tag ++ ys, take?_of_bytesAt? (bytesAt?_add htag hys), List.take_left' hfour, by
    rw [List.drop_left' hfour]⟩

theorem findChunk_of_tag (htag : bytesAt? h o 4 = some (Chunk.tagOf "fmt "))
    (hlength : numberAt? h (o + 4) 4 = some length) :
    findChunk (h.drop o) = pure (.ok (length, h.drop (o + 8))) := by
  obtain ⟨head, htake, hname, rfl⟩ := take?_head htag hlength
  rw [findChunk_of_ok htake, if_pos hname]

theorem findChunk_of_cut (hcut : h.length < o + 8) :
    findChunk (h.drop o) = pure (.error .missingFormatChunk) :=
  findChunk_of_error (take?_of_lt (by decide) hcut)

/-- A chunk that is not a format chunk is passed over. -/
theorem findChunk_of_other (hother : OtherAt h o tag length) :
    (findChunk (h.drop o)).value = (findChunk (h.drop (o + 8 + length))).value := by
  obtain ⟨head, htake, hname, rfl⟩ := take?_head hother.tag hother.stated
  rw [findChunk_of_ok htake, if_neg (hname ▸ hother.ne), Logged.value_bind, List.drop_drop]

theorem findChunk_of_leads (hleads : Leads h o o') :
    (findChunk (h.drop o)).value = (findChunk (h.drop o')).value := by
  induction hleads with
  | here => rfl
  | next hother _ ih => rw [findChunk_of_other hother, ih]

/-! ### The format chunk -/

theorem readBody_of_short (hlength : length < 16) (bytes : Bytes) :
    readBody length bytes = .error (.formatChunkTooShort length) := by
  have hshort : ¬ minimalChunkLength ≤ length := Nat.not_le_of_lt hlength
  rw [readBody, ensure, if_neg hshort]
  rfl

/-- What is left to do once the length is found to be right. -/
theorem readBody_of_le (hlength : 16 ≤ length) (bytes : Bytes) :
    readBody length bytes = number? 2 bytes >>= fun format =>
      ensure (format.1 = 1) (.unsupportedFormat format.1) >>= fun _ =>
      number? 4 (format.2.drop 2) >>= fun rate =>
      number? 2 (rate.2.drop 6) >>= fun bits =>
      ensure (bits.1 = 16) (.unsupportedSampleWidth bits.1) >>= fun _ =>
      pure ⟨rate.1, bits.1⟩ := by
  have hlong : minimalChunkLength ≤ length := hlength
  rw [readBody, ensure, if_pos hlong]
  rfl

theorem readBody_of_formatCut (hlength : 16 ≤ length) (hcut : h.length < o + 10) :
    readBody length (h.drop (o + 8)) = .error .missingFormatChunk := by
  rw [readBody_of_le hlength, number?_of_lt (o := o + 8) (by decide) hcut]
  rfl

theorem readBody_of_format {format : Nat} (hlength : 16 ≤ length)
    (hformat : numberAt? h (o + 8) 2 = some format) (hne : format ≠ 1) :
    readBody length (h.drop (o + 8)) = .error (.unsupportedFormat format) := by
  rw [readBody_of_le hlength, number?_of_numberAt? hformat, ok_bind, ensure, if_neg hne]
  rfl

/-- What is left to do once the samples are found to be linear. -/
theorem readBody_of_pcm (hlength : 16 ≤ length) (hpcm : numberAt? h (o + 8) 2 = some 1) :
    readBody length (h.drop (o + 8)) = number? 4 (h.drop (o + 12)) >>= fun rate =>
      number? 2 (rate.2.drop 6) >>= fun bits =>
      ensure (bits.1 = 16) (.unsupportedSampleWidth bits.1) >>= fun _ =>
      pure ⟨rate.1, bits.1⟩ := by
  rw [readBody_of_le hlength, number?_of_numberAt? hpcm, ok_bind, ensure, if_pos rfl, ok_bind,
    List.drop_drop]

theorem readBody_of_bodyCut (hlength : 16 ≤ length) (hpcm : numberAt? h (o + 8) 2 = some 1)
    (hcut : h.length < o + 24) :
    readBody length (h.drop (o + 8)) = .error .missingFormatChunk := by
  rw [readBody_of_pcm hlength hpcm]
  rcases lt_or_numberAt? h (o + 12) 4 with hrate | ⟨rate, hrate⟩
  · rw [number?_of_lt (by decide) hrate]
    rfl
  · rw [number?_of_numberAt? hrate, ok_bind, List.drop_drop,
      number?_of_lt (o := o + 22) (by decide) hcut]
    rfl

/-- What is left to do once all numbers are there. -/
theorem readBody_of_numbers {rate bits : Nat} (hlength : 16 ≤ length)
    (hpcm : numberAt? h (o + 8) 2 = some 1) (hrate : numberAt? h (o + 12) 4 = some rate)
    (hbits : numberAt? h (o + 22) 2 = some bits) :
    readBody length (h.drop (o + 8)) =
      ensure (bits = 16) (.unsupportedSampleWidth bits) >>= fun _ => pure ⟨rate, bits⟩ := by
  rw [readBody_of_pcm hlength hpcm, number?_of_numberAt? hrate, ok_bind, List.drop_drop,
    number?_of_numberAt? hbits, ok_bind]

/-! ### The whole header -/

theorem outcome_liftFault {α : Type} (x : Except WaveFault α) :
    (parse.liftFault x).outcome = x.mapError Fault.wave := by
  cases x <;> rfl

/-- The outcome without the log. -/
theorem outcome_parse (h : Bytes) : (parse h).outcome =
    (readTags h >>= fun chunks => (findChunk chunks).value >>= fun found =>
      readBody found.1 found.2).mapError Fault.wave := by
  rw [parse, Checked.outcome_bind, outcome_liftFault]
  cases readTags h with
  | error e => rfl
  | ok chunks =>
    have hlift : Checked.outcome (liftM (findChunk chunks)) = .ok (findChunk chunks).value := rfl
    simp only [mapError_ok, ok_bind, Checked.outcome_bind, hlift, outcome_liftFault]
    cases (findChunk chunks).value with
    | error e => rfl
    | ok found =>
      simp only [mapError_ok, ok_bind]
      cases readBody found.1 found.2 with
      | error e => rfl
      | ok format =>
        simp only [mapError_ok, ok_bind]
        split <;> rfl

/-- Where the tags are found, the rest depends on the chunks alone. -/
theorem outcome_of_leads (htagged : Tagged h) (hleads : Leads h 12 o) : (parse h).outcome =
    ((findChunk (h.drop o)).value >>= fun found => readBody found.1 found.2).mapError
      Fault.wave := by
  rw [outcome_parse, readTags_of_tagged htagged, ok_bind, findChunk_of_leads hleads]

/-- Where the format chunk is found, the rest depends on it alone. -/
theorem outcome_of_formatAt (hformat : FormatAt h o length) :
    (parse h).outcome = (readBody length (h.drop (o + 8))).mapError Fault.wave := by
  rw [outcome_of_leads hformat.tagged hformat.leads, findChunk_of_tag hformat.tag hformat.stated]
  rfl

/-- **What is read of a header that is accepted.** -/
theorem outcome_of_accepts {rate : Nat} (haccepts : Accepts h rate) :
    (parse h).outcome = .ok ⟨rate, 16⟩ := by
  obtain ⟨hformat, hlength, -, hpcm, hrate, hbits⟩ := haccepts
  rw [outcome_of_formatAt hformat, readBody_of_numbers hlength hpcm hrate hbits]
  rfl

/-- **What becomes of a header that is refused.** -/
theorem outcome_of_refuses {e : WaveFault} (hrefuses : Refuses h e) :
    (parse h).outcome = .error (.wave e) := by
  cases hrefuses with
  | riffCut hcut => rw [outcome_parse, readTags_of_riffCut hcut]; rfl
  | riff htag hne => rw [outcome_parse, readTags_of_riff htag hne]; rfl
  | waveCut hriff hcut => rw [outcome_parse, readTags_of_waveCut hriff hcut]; rfl
  | wave hriff htag hne => rw [outcome_parse, readTags_of_wave hriff htag hne]; rfl
  | headCut htagged hleads hcut => rw [outcome_of_leads htagged hleads, findChunk_of_cut hcut]; rfl
  | tooShort hformat hlength => rw [outcome_of_formatAt hformat, readBody_of_short hlength]; rfl
  | formatCut hformat hlength hcut =>
    rw [outcome_of_formatAt hformat, readBody_of_formatCut hlength hcut]
    rfl
  | format hformat hlength hnumber hne =>
    rw [outcome_of_formatAt hformat, readBody_of_format hlength hnumber hne]
    rfl
  | bodyCut hformat hlength hpcm hcut =>
    rw [outcome_of_formatAt hformat, readBody_of_bodyCut hlength hpcm hcut]
    rfl
  | @width o _ _ hformat hlength hpcm hnumber hne =>
    have hle := le_of_numberAt? hnumber
    obtain ⟨rate, hrate⟩ : ∃ rate, numberAt? h (o + 12) 4 = some rate :=
      (lt_or_numberAt? h (o + 12) 4).resolve_left (by omega)
    rw [outcome_of_formatAt hformat, readBody_of_numbers hlength hpcm hrate hnumber, ensure,
      if_neg hne]
    rfl

/-! ## How long the scan is -/

/-- Every chunk that is passed over leaves a record, and its head takes eight bytes; so does the
head of the chunk that is found. -/
theorem length_log_findChunk (bytes : Bytes) :
    8 * (findChunk bytes).log.length ≤ bytes.length ∧
      ∀ found, (findChunk bytes).value = .ok found →
        8 * ((findChunk bytes).log.length + 1) ≤ bytes.length := by
  induction bytes using findChunk.induct with
  | case1 bytes fault htake =>
    rw [findChunk_of_error htake]
    exact ⟨Nat.zero_le _, fun found h => by cases h⟩
  | case2 bytes head rest htake name hname =>
    have hlength := length_of_take? htake
    rw [findChunk_of_ok htake, if_pos hname]
    exact ⟨Nat.zero_le _, fun found h => by simp; omega⟩
  | case3 bytes head rest htake name length hname _ ih =>
    have hlength := length_of_take? htake
    rw [findChunk_of_ok htake, if_neg hname]
    rw [List.length_drop] at ih
    have hlog : ((Logged.note .debug .wave (skippedChunkMessage (head.take 4)
        (Wire.toNat (head.drop 4))) >>= fun _ => findChunk
          (rest.drop (Wire.toNat (head.drop 4)))).log).length =
        (findChunk (rest.drop length)).log.length + 1 := by
      rw [Logged.log_bind, List.length_append, Nat.add_comm]
      rfl
    refine ⟨?_, fun found hfound => ?_⟩
    · rw [hlog]
      omega
    · have := ih.2 found hfound
      rw [hlog]
      omega

theorem length_of_readTags {chunks : Bytes} (hread : readTags h = .ok chunks) :
    chunks.length ≤ h.length := by
  obtain ⟨⟨riff, rest⟩, hriff, hread⟩ := bind_eq_ok.1 hread
  obtain ⟨-, -, hread⟩ := bind_eq_ok.1 hread
  obtain ⟨⟨wave, rest'⟩, hwave, hread⟩ := bind_eq_ok.1 hread
  obtain ⟨-, -, hread⟩ := bind_eq_ok.1 hread
  cases hread
  have hfirst := length_of_take? hriff
  have hsecond := length_of_take? hwave
  rw [List.length_drop] at hsecond
  omega

theorem log_liftFault {α : Type} (x : Except WaveFault α) : (parse.liftFault x).log = [] := by
  cases x <;> rfl

/-- **The scan is short.**  No header leaves more records than one for each eight bytes. -/
theorem length_log_parse (h : Bytes) : 8 * (parse h).log.length ≤ h.length := by
  have hscan (chunks : Bytes) : Checked.log (liftM (findChunk chunks)) = (findChunk chunks).log :=
    Logged.log_map Except.ok _
  have hfound (chunks : Bytes) :
      Checked.outcome (liftM (findChunk chunks)) = .ok (findChunk chunks).value := rfl
  rw [parse, Checked.log_bind, outcome_liftFault, log_liftFault, List.nil_append]
  cases hread : readTags h with
  | error e => exact Nat.zero_le _
  | ok chunks =>
    have hchunks := length_of_readTags hread
    obtain ⟨hskipped, hformat⟩ := length_log_findChunk chunks
    dsimp only [mapError_ok]
    rw [Checked.log_bind, hscan, hfound, List.length_append]
    dsimp only
    rw [Checked.log_bind, outcome_liftFault, log_liftFault, List.nil_append]
    cases hvalue : (findChunk chunks).value with
    | error e => exact Nat.le_trans hskipped hchunks
    | ok found =>
      have hone := hformat found hvalue
      dsimp only [mapError_ok]
      rw [Checked.log_bind, log_liftFault, List.nil_append]
      -- only a format chunk that is longer than it has to be leaves another record
      split
      · split
        · exact Nat.le_trans hone hchunks
        · exact Nat.le_trans hskipped hchunks
      · exact Nat.le_trans hskipped hchunks

/-! ## The grammar is the parser's -/

/-- **What becomes of a header.**  It is accepted exactly if it is a header of 16-bit linear PCM,
with the sample rate that stands in its first format chunk, and refused exactly for the first thing
that is wrong with it, with no other cause than one of the header.  The scan for the format chunk
leaves a record for each chunk it passes over, and ends after one for each eight bytes at most. -/
theorem outcome_parse_iff (h : Bytes) :
    (∀ rate bits, (parse h).outcome = .ok ⟨rate, bits⟩ ↔ bits = 16 ∧ Accepts h rate) ∧
    (∀ fault, (parse h).outcome = .error fault ↔ ∃ e, fault = .wave e ∧ Refuses h e) ∧
    8 * (parse h).log.length ≤ h.length := by
  refine ⟨fun rate bits => ⟨fun hparse => ?_, ?_⟩, fun fault => ⟨fun hparse => ?_, ?_⟩,
    length_log_parse h⟩
  · rcases accepts_or_refuses h with ⟨rate', haccepts⟩ | ⟨e, hrefuses⟩
    · rw [outcome_of_accepts haccepts] at hparse
      cases hparse
      exact ⟨rfl, haccepts⟩
    · rw [outcome_of_refuses hrefuses] at hparse
      cases hparse
  · rintro ⟨rfl, haccepts⟩
    exact outcome_of_accepts haccepts
  · rcases accepts_or_refuses h with ⟨rate, haccepts⟩ | ⟨e, hrefuses⟩
    · rw [outcome_of_accepts haccepts] at hparse
      cases hparse
    · rw [outcome_of_refuses hrefuses] at hparse
      cases hparse
      exact ⟨e, rfl, hrefuses⟩
  · rintro ⟨e, rfl, hrefuses⟩
    exact outcome_of_refuses hrefuses

end WaveFormat

end LosslessAudio
