import Mathlib.Algebra.Group.Nat.Defs
import LosslessAudio.Proofs.WaveGrammar

/-!
# Written chunks, read back

A chunk is written with a byte of padding behind a body of odd length, so that the next one begins
at an even place.  `WaveFormat.parse` passes over a chunk by the length of its body alone.  Files
whose chunks have bodies of even length are therefore read as they were written; behind the first
odd one, the padding is taken for the first byte of the next head, and whatever comes of that is
what comes of the file (`outcome_written`).
-/

set_option autoImplicit false

namespace LosslessAudio

/-! ## Chunks -/

namespace Chunk

/-- A chunk that can be written, and is not the format chunk. -/
structure Ordinary (c : Chunk) : Prop where
  tag : c.tag.length = 4
  ne : c.tag ≠ tagOf "fmt "
  short : c.body.length < lengthLimit

theorem bytes?_of_short {c : Chunk} (hshort : c.body.length < lengthLimit) :
    c.bytes? = .ok c.bytes := by
  rw [bytes?, ensure, if_pos hshort]
  rfl

theorem padding_of_even {body : Bytes} (heven : body.length % 2 = 0) : padding body = [] := by
  rw [padding, if_neg (by omega)]

theorem padding_of_odd {body : Bytes} (hodd : body.length % 2 = 1) : padding body = [0] :=
  if_pos hodd

end Chunk

/-- The bytes of a format chunk, whose body has an even length. -/
theorem FormatChunk.bytes_toChunk (f : FormatChunk) : f.toChunk.bytes =
    [0x66, 0x6D, 0x74, 0x20, 16, 0, 0, 0] ++ Wire.bytes .littleEndian f := by
  have htag : f.toChunk.tag = [0x66, 0x6D, 0x74, 0x20] := by
    show Chunk.tagOf "fmt " = _
    decide
  have hlength : f.toChunk.body.length = 16 := rfl
  rw [Chunk.bytes, Chunk.padding_of_even (by rw [hlength]), hlength, htag, List.append_nil]
  rfl

namespace WaveFormat

/-! ## Places in a file that is put together -/

theorem bytesAt?_append (pre xs post : Bytes) :
    bytesAt? (pre ++ (xs ++ post)) pre.length xs.length = some xs := by
  rw [bytesAt?, if_pos (by simp only [List.length_append]; omega), List.drop_left, List.take_left]

theorem numberAt?_append (pre post : Bytes) {width n : Nat} (hn : n < Nat.pow 256 width) :
    numberAt? (pre ++ (Wire.littleEndian width n ++ post)) pre.length width = some n := by
  have hbytes := bytesAt?_append pre (Wire.littleEndian width n) post
  rw [Wire.length_littleEndian] at hbytes
  rw [numberAt?, hbytes, Option.map_some, Wire.toNat_littleEndian, Nat.mod_eq_of_lt hn]

/-- What a WAVE file starts with. -/
def opening (size : Bytes) : Bytes :=
  Chunk.tagOf "RIFF" ++ size ++ Chunk.tagOf "WAVE"

variable {size : Bytes}

theorem length_opening (hsize : size.length = 4) : (opening size).length = 12 := by
  rw [opening, List.length_append, List.length_append, hsize]
  rfl

theorem tagged_opening (hsize : size.length = 4) (post : Bytes) :
    Tagged (opening size ++ post) := by
  have hriff := bytesAt?_append [] (Chunk.tagOf "RIFF") (size ++ (Chunk.tagOf "WAVE" ++ post))
  have hwave := bytesAt?_append (Chunk.tagOf "RIFF" ++ size) (Chunk.tagOf "WAVE") post
  have hplace : (Chunk.tagOf "RIFF" ++ size).length = 8 := by
    rw [List.length_append, hsize]
    rfl
  rw [hplace] at hwave
  simp only [List.nil_append, List.append_assoc] at hriff hwave
  constructor
  · rw [opening, List.append_assoc, List.append_assoc]
    exact hriff
  · rw [opening, List.append_assoc, List.append_assoc]
    exact hwave

/-! ## Chunks that are passed over -/

theorem otherAt_append {c : Chunk} (hc : c.Ordinary) (pre post : Bytes) :
    OtherAt (pre ++ (c.bytes ++ post)) pre.length c.tag c.body.length where
  tag := by
    have htag := bytesAt?_append pre c.tag
      (Wire.littleEndian 4 c.body.length ++ (c.body ++ (Chunk.padding c.body ++ post)))
    rw [hc.tag] at htag
    simpa only [Chunk.bytes, List.append_assoc] using htag
  ne := hc.ne
  stated := by
    have hlength := numberAt?_append (pre ++ c.tag) (c.body ++ (Chunk.padding c.body ++ post))
      (show c.body.length < Nat.pow 256 4 from hc.short)
    rw [List.length_append, hc.tag] at hlength
    simpa only [Chunk.bytes, List.append_assoc] using hlength

/-- The scan goes over chunks with bodies of even length to what follows them. -/
theorem leads_of_even {chunks : List Chunk} (hchunks : ∀ c ∈ chunks, c.Ordinary)
    (heven : ∀ c ∈ chunks, c.body.length % 2 = 0) (pre post : Bytes) :
    Leads (pre ++ (chunks.flatMap Chunk.bytes ++ post)) pre.length
      (pre ++ chunks.flatMap Chunk.bytes).length := by
  induction chunks generalizing pre with
  | nil =>
    rw [List.flatMap_nil, List.append_nil]
    exact .here _
  | cons c chunks ih =>
    have hc := hchunks c List.mem_cons_self
    have hpadding := Chunk.padding_of_even (heven c List.mem_cons_self)
    have hrest := ih (fun c' hc' => hchunks c' (List.mem_cons_of_mem c hc'))
      (fun c' hc' => heven c' (List.mem_cons_of_mem c hc')) (pre ++ c.bytes)
    have hplace : (pre ++ c.bytes).length = pre.length + 8 + c.body.length := by
      simp only [Chunk.bytes, hpadding, List.length_append, hc.tag, Wire.length_littleEndian,
        List.length_nil]
      omega
    rw [List.flatMap_cons, List.append_assoc]
    rw [hplace] at hrest
    simp only [List.append_assoc] at hrest
    exact .next (otherAt_append hc pre _) hrest

/-! ## The format chunk -/

variable {pre rest : Bytes} {rate : UInt32} {channels : UInt16}

/-- The format chunk of 16-bit samples is read, wherever the scan comes upon it. -/
theorem accepts_of_leads
    (htagged : Tagged (pre ++ ((FormatChunk.pcm rate channels 16).toChunk.bytes ++ rest)))
    (hleads : Leads (pre ++ ((FormatChunk.pcm rate channels 16).toChunk.bytes ++ rest)) 12
      pre.length) :
    Accepts (pre ++ ((FormatChunk.pcm rate channels 16).toChunk.bytes ++ rest)) rate.toNat := by
  have hbytes := (FormatChunk.pcm rate channels 16).bytes_toChunk
  generalize (FormatChunk.pcm rate channels 16).toChunk.bytes = format at *
  have hlength : format.length = 24 := by rw [hbytes]; rfl
  have hplaces (k n : Nat) (hk : k + n ≤ 24) :
      bytesAt? (pre ++ (format ++ rest)) (pre.length + k) n = some ((format.drop k).take n) := by
    rw [bytesAt?, if_pos (by simp only [List.length_append]; omega), ← List.drop_drop,
      List.drop_left, List.drop_append_of_le_length (by omega),
      List.take_append_of_le_length (by rw [List.length_drop]; omega)]
  have hrate : Wire.toNat (Wire.littleEndian 4 rate.toNat) = rate.toNat := by
    rw [Wire.toNat_littleEndian]
    exact Nat.mod_eq_of_lt rate.toNat_lt
  refine .intro ⟨htagged, hleads, ?_, ?_⟩ (Nat.le_refl 16) ?_ ?_ ?_ ?_
  · refine (hplaces 0 4 (by decide)).trans ?_
    rw [hbytes]
    exact congrArg some (show [0x66, 0x6D, 0x74, 0x20] = Chunk.tagOf "fmt " by decide)
  · rw [numberAt?, hplaces 4 4 (by decide), hbytes]
    rfl
  · simp only [List.length_append]
    omega
  · rw [numberAt?, hplaces 8 2 (by decide), hbytes]
    exact congrArg some (show Wire.toNat (Wire.littleEndian 2 1) = 1 by decide)
  · rw [numberAt?, hplaces 12 4 (by decide), hbytes]
    exact congrArg some hrate
  · rw [numberAt?, hplaces 22 2 (by decide), hbytes]
    exact congrArg some (show Wire.toNat (Wire.littleEndian 2 16) = 16 by decide)

/-! ## What is read -/

section

variable {evens later : List Chunk} {odd : Chunk}

/-- Where all bodies have an even length, the format chunk is found behind them. -/
theorem outcome_of_even (hsize : size.length = 4) (hevens : ∀ c ∈ evens, c.Ordinary)
    (heven : ∀ c ∈ evens, c.body.length % 2 = 0) :
    (parse (opening size ++ (evens.flatMap Chunk.bytes ++
      ((FormatChunk.pcm rate channels 16).toChunk.bytes ++ rest)))).outcome =
        .ok ⟨rate.toNat, 16⟩ := by
  have hleads := leads_of_even hevens heven (opening size)
    ((FormatChunk.pcm rate channels 16).toChunk.bytes ++ rest)
  have htagged := tagged_opening hsize (evens.flatMap Chunk.bytes ++
    ((FormatChunk.pcm rate channels 16).toChunk.bytes ++ rest))
  rw [length_opening hsize] at hleads
  rw [← List.append_assoc] at hleads htagged ⊢
  exact outcome_of_accepts (accepts_of_leads htagged hleads)

/-- Behind a body of odd length, the padding is taken for the beginning of the next head. -/
theorem outcome_of_odd (hsize : size.length = 4) (hevens : ∀ c ∈ evens, c.Ordinary)
    (heven : ∀ c ∈ evens, c.body.length % 2 = 0) (hodd : odd.Ordinary)
    (hlength : odd.body.length % 2 = 1) (post : Bytes) :
    (parse (opening size ++ (evens.flatMap Chunk.bytes ++ (odd.bytes ++ post)))).outcome =
      (parse (opening size ++ (0 :: post))).outcome := by
  have hleads := leads_of_even hevens heven (opening size) (odd.bytes ++ post)
  have hother := otherAt_append hodd (opening size ++ evens.flatMap Chunk.bytes) post
  have hbehind : (opening size ++ (evens.flatMap Chunk.bytes ++ (odd.bytes ++ post))).drop
      ((opening size ++ evens.flatMap Chunk.bytes).length + 8 + odd.body.length) = 0 :: post := by
    have hsplit : opening size ++ (evens.flatMap Chunk.bytes ++ (odd.bytes ++ post)) =
        (opening size ++ (evens.flatMap Chunk.bytes ++ (odd.tag ++
          (Wire.littleEndian 4 odd.body.length ++ odd.body)))) ++ (0 :: post) := by
      simp [Chunk.bytes, Chunk.padding_of_odd hlength]
    rw [hsplit]
    refine List.drop_left' ?_
    simp only [List.length_append, hodd.tag, Wire.length_littleEndian]
    omega
  rw [length_opening hsize] at hleads
  rw [List.append_assoc] at hother
  rw [outcome_of_leads (tagged_opening hsize _) (hleads.trans (.next hother (.here _))), hbehind,
    outcome_of_leads (tagged_opening hsize _) (.here 12), List.drop_left' (length_opening hsize)]

/-- In front of the format chunk, the padding leads so far behind it that a file without many
samples ends there. -/
theorem outcome_of_odd_format (hsize : size.length = 4) (hrest : rest.length < 4119) :
    (parse (opening size ++ (0 :: ((FormatChunk.pcm rate channels 16).toChunk.bytes ++
      rest)))).outcome = .error (.wave .missingFormatChunk) := by
  have hlength : (FormatChunk.pcm rate channels 16).toChunk.bytes.length = 24 := by
    rw [FormatChunk.bytes_toChunk]
    rfl
  have hother : OtherAt (opening size ++
      (0 :: ((FormatChunk.pcm rate channels 16).toChunk.bytes ++ rest))) 12
        [0, 0x66, 0x6D, 0x74] 4128 := by
    let post := 0 :: (Wire.bytes .littleEndian (FormatChunk.pcm rate channels 16) ++ rest)
    have hhead : 0 :: ((FormatChunk.pcm rate channels 16).toChunk.bytes ++ rest) =
        [0, 0x66, 0x6D, 0x74] ++ (Wire.littleEndian 4 4128 ++ post) := by
      rw [FormatChunk.bytes_toChunk, show Wire.littleEndian 4 4128 = [0x20, 0x10, 0, 0] by decide]
      rfl
    have htag := bytesAt?_append (opening size) [0, 0x66, 0x6D, 0x74]
      (Wire.littleEndian 4 4128 ++ post)
    have hstated := numberAt?_append (opening size ++ [0, 0x66, 0x6D, 0x74]) post
      (show 4128 < Nat.pow 256 4 by decide)
    rw [List.length_append, length_opening hsize, List.append_assoc] at hstated
    rw [length_opening hsize] at htag
    rw [hhead]
    exact ⟨htag, by decide, hstated⟩
  refine outcome_of_refuses (.headCut (tagged_opening hsize _) (.next hother (.here _)) ?_)
  simp only [List.length_append, List.length_cons, length_opening hsize]
  omega

end

/-- **What is read of a file that was written.**  If all bodies in front of the format chunk have
an even length, it is the sample rate in that chunk.  If not, it is what is read of a file in which
the padding of the first odd body stands in the place of a head; if the format chunk comes next,
nothing is found unless more than 4 KiB follow. -/
theorem outcome_written {size : Bytes} (hsize : size.length = 4) {chunks : List Chunk}
    (hchunks : ∀ c ∈ chunks, c.Ordinary) (rate : UInt32) (channels : UInt16) (rest : Bytes) :
    let format := (FormatChunk.pcm rate channels 16).toChunk
    let outcome (behind : Bytes) := (parse (opening size ++ behind)).outcome
    let written := (chunks ++ [format]).flatMap Chunk.bytes ++ rest
    (∀ c ∈ chunks ++ [format], c.bytes? = .ok c.bytes) ∧
    ((∀ c ∈ chunks, c.body.length % 2 = 0) → outcome written = .ok ⟨rate.toNat, 16⟩) ∧
    ∀ evens odd later, chunks = evens ++ odd :: later →
      (∀ c ∈ evens, c.body.length % 2 = 0) → odd.body.length % 2 = 1 →
        outcome written = outcome (0 :: ((later ++ [format]).flatMap Chunk.bytes ++ rest)) ∧
        (later = [] → rest.length < 4119 →
          outcome written = .error (.wave .missingFormatChunk)) := by
  have hjoin (cs : List Chunk) : (cs ++ [(FormatChunk.pcm rate channels 16).toChunk]).flatMap
      Chunk.bytes ++ rest =
        cs.flatMap Chunk.bytes ++ ((FormatChunk.pcm rate channels 16).toChunk.bytes ++ rest) := by
    simp
  refine ⟨fun c hc => Chunk.bytes?_of_short ?_, fun heven => ?_, ?_⟩
  · rcases List.mem_append.1 hc with hc | hc
    · exact (hchunks c hc).short
    · rw [List.mem_singleton.1 hc]
      exact (by decide : 16 < Chunk.lengthLimit)
  · dsimp only
    rw [hjoin]
    exact outcome_of_even hsize hchunks heven
  · rintro evens odd later rfl heven hlength
    have hodd := hchunks odd (by simp)
    have hevens : ∀ c ∈ evens, c.Ordinary := fun c hc => hchunks c (List.mem_append_left _ hc)
    have hpadded := outcome_of_odd hsize hevens heven hodd hlength
      (later.flatMap Chunk.bytes ++ ((FormatChunk.pcm rate channels 16).toChunk.bytes ++ rest))
    dsimp only
    rw [hjoin, hjoin, List.flatMap_append, List.flatMap_cons, List.append_assoc, List.append_assoc,
      hpadded]
    refine ⟨rfl, ?_⟩
    rintro rfl hrest
    exact outcome_of_odd_format hsize hrest

/-- A chunk of one byte. -/
def oddChunk : Chunk := ⟨Chunk.tagOf "LIST", [7]⟩

/-- A chunk of two bytes. -/
def evenChunk : Chunk := ⟨Chunk.tagOf "INFO", [1, 2]⟩

theorem ordinary_evenChunk_oddChunk : ∀ c ∈ [evenChunk, oddChunk], c.Ordinary := by
  intro c hc
  simp only [List.mem_cons, List.not_mem_nil, or_false] at hc
  rcases hc with rfl | rfl
  · exact ⟨by decide, by decide, by decide⟩
  · exact ⟨by decide, by decide, by decide⟩

theorem outcome_written_oddChunk :
    let format := (FormatChunk.pcm 44100 2 16).toChunk
    let outcome (behind : Bytes) := (parse (opening [0, 0, 0, 0] ++ behind)).outcome
    (∀ c ∈ [evenChunk, oddChunk], c.Ordinary) ∧
      outcome (([evenChunk] ++ [format]).flatMap Chunk.bytes ++ []) = .ok ⟨44100, 16⟩ ∧
      outcome (([evenChunk, oddChunk] ++ [format]).flatMap Chunk.bytes ++ []) =
        .error (.wave .missingFormatChunk) := by
  have hsize : ([0, 0, 0, 0] : Bytes).length = 4 := rfl
  have hordinary := ordinary_evenChunk_oddChunk
  have hsingle : ∀ c ∈ [evenChunk], c.Ordinary := fun c hc =>
    hordinary c (List.mem_append_left [oddChunk] hc)
  have heven : ∀ c ∈ [evenChunk], c.body.length % 2 = 0 := by simp [evenChunk]
  have hread := (outcome_written hsize hsingle 44100 2 []).2.1 heven
  have hmissed := ((outcome_written hsize hordinary 44100 2 []).2.2 [evenChunk] oddChunk [] rfl
    heven rfl).2 rfl (by decide)
  exact ⟨hordinary, hread, hmissed⟩

/-- **Not everything that is written is read.** -/
theorem outcome_written_ne : ¬ ∀ (size : Bytes) (chunks : List Chunk) (rate : UInt32)
    (channels : UInt16) (rest : Bytes), size.length = 4 → (∀ c ∈ chunks, c.Ordinary) →
      channels.toNat * 2 < 2 ^ 16 → rate.toNat * (channels.toNat * 2) < 2 ^ 32 →
        (parse (opening size ++ ((chunks ++ [(FormatChunk.pcm rate channels 16).toChunk]).flatMap
          Chunk.bytes ++ rest))).outcome = .ok ⟨rate.toNat, 16⟩ := by
  intro hall
  have hsize : ([0, 0, 0, 0] : Bytes).length = 4 := rfl
  have hodd : oddChunk.Ordinary := ordinary_evenChunk_oddChunk oddChunk (by simp)
  have hnone : ∀ c ∈ ([] : List Chunk), c.Ordinary := by simp
  have hpadded := outcome_of_odd hsize hnone (by simp) hodd rfl
    ((FormatChunk.pcm 44100 2 16).toChunk.bytes ++ [])
  rw [outcome_of_odd_format hsize (by decide)] at hpadded
  have hread := hall [0, 0, 0, 0] [oddChunk] 44100 2 [] rfl (by simpa using hodd) (by decide)
    (by decide)
  simp only [List.cons_append, List.nil_append, List.flatMap_cons, List.flatMap_nil,
    List.append_nil] at hread hpadded
  rw [hpadded] at hread
  cases hread

end WaveFormat

end LosslessAudio
