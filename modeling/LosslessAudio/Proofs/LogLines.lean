import LosslessAudio.Program
import LosslessAudio.Proofs.JsonGrammar
import LosslessAudio.Proofs.LogMessages

/-!
# Log lines as JSON

A record is written as a JSON object whose last member is its message as quoted text.  Quoted text
and the strings of JSON agree on quotes, backslashes and common control characters, but not on the
others: those are the *foreign* characters.

* `Text.stands_quoted` — quoted text read as a JSON string.
* `Record.isText_json_iff` — the line of a record read as a JSON text.
-/

set_option autoImplicit false

namespace LosslessAudio

/-! ## Quoted text as a JSON string -/

namespace Text

/-- A character that quoted text writes as no JSON string does: with its code point in braces, or
as a zero behind a backslash. -/
def IsForeign (c : Char) : Prop :=
  isFormless c ∧ c ∉ ['\t', '\r', '\n']

instance (c : Char) : Decidable (IsForeign c) :=
  decidable_of_iff
    (formlessRanges.toList.any (fun range => range.1 ≤ c.toNat && c.toNat ≤ range.2) ∧
      c ∉ ['\t', '\r', '\n'])
    (by rw [Array.any_toList]; exact Iff.rfl)

/-- The table begins with the control characters, and has no other range below 0x7F. -/
theorem formlessRanges_ascii :
    ∀ range ∈ formlessRanges.toList, range.2 ≤ 0x1F ∨ 0x7F ≤ range.1 := by
  decide +kernel

theorem isFormless_of_mem {range : Nat × Nat} {c : Char} (hmem : range ∈ formlessRanges.toList)
    (h : range.1 ≤ c.toNat ∧ c.toNat ≤ range.2) : isFormless c := by
  rw [isFormless, ← Array.any_toList, List.any_eq_true]
  exact ⟨range, hmem, by simpa using h⟩

theorem isFormless_of_lt {c : Char} (h : c.toNat < 0x20) : isFormless c := by
  have hmem : (0x0, 0x1F) ∈ formlessRanges.toList := by decide
  exact isFormless_of_mem hmem ⟨Nat.zero_le _, Nat.le_of_lt_succ h⟩

/-- Printable ASCII characters stand for themselves, or behind a backslash. -/
theorem not_isFormless_of_printable {c : Char} (h : 0x20 ≤ c.toNat ∧ c.toNat ≤ 0x7E) :
    ¬isFormless c := by
  rw [isFormless, ← Array.any_toList, List.any_eq_true]
  rintro ⟨range, hmem, hrange⟩
  have hascii := formlessRanges_ascii range hmem
  simp only [Bool.and_eq_true, decide_eq_true_eq] at hrange
  omega

theorem not_isForeign_of_printable {c : Char} (h : 0x20 ≤ c.toNat ∧ c.toNat ≤ 0x7E) :
    ¬IsForeign c :=
  fun hforeign => not_isFormless_of_printable h hforeign.1

/-- What quoted text writes for a character that is not foreign is a JSON form of the character. -/
theorem writes_quotedChar {c : Char} (h : ¬IsForeign c) : Json.Writes (quotedChar c) c := by
  unfold quotedChar
  split_ifs with hzero htab hreturn hfeed hmark hformless
  · exact absurd ⟨isFormless_of_lt (by rw [hzero]; decide), by rw [hzero]; decide⟩ h
  · exact htab ▸ Json.writes_escaped rfl
  · exact hreturn ▸ Json.writes_escaped rfl
  · exact hfeed ▸ Json.writes_escaped rfl
  · rcases hmark with rfl | rfl <;> exact Json.writes_escaped rfl
  · exact absurd ⟨hformless, by simp [htab, hreturn, hfeed]⟩ h
  · rw [not_or] at hmark
    exact Json.writes_plain ⟨Nat.le_of_not_lt fun hlt => hformless (isFormless_of_lt hlt), hmark⟩

/-- What it writes for a foreign one begins no JSON form. -/
theorem breaks_quotedChar {c : Char} (h : IsForeign c) : Json.Breaks (quotedChar c) := by
  obtain ⟨hformless, hother⟩ := h
  simp only [List.mem_cons, List.not_mem_nil, or_false, not_or] at hother
  obtain ⟨htab, hreturn, hfeed⟩ := hother
  unfold quotedChar
  split_ifs with hzero hmark
  · exact Json.breaks_escaped rfl (by decide)
  · rcases hmark with rfl | rfl <;> exact absurd hformless (not_isFormless_of_printable (by decide))
  · exact Json.breaks_unit rfl _

/-- A text without foreign characters. -/
def IsLegible (text : String) : Prop :=
  ∀ c ∈ text.toList, ¬IsForeign c

instance (text : String) : Decidable (IsLegible text) :=
  List.decidableBAll (fun c => ¬IsForeign c) text.toList

theorem isLegible_append_iff {s t : String} :
    IsLegible (s ++ t) ↔ IsLegible s ∧ IsLegible t := by
  rw [IsLegible, String.toList_append]
  exact List.forall_mem_append

theorem IsPrintable.isLegible {text : String} (h : IsPrintable text) : IsLegible text :=
  fun c hc => not_isForeign_of_printable (h c hc)

/-- **Quoted text is a JSON string** that stands for the text, if the text is legible, and else no
JSON string at all. -/
theorem stands_quoted (text : String) :
    Json.Stands (text.toList.flatMap quotedChar) fun t => t = text ∧ IsLegible text := by
  have h := Json.stands_flatMap text.toList (fun c _ => writes_quotedChar)
    (fun c _ hc => breaks_quotedChar (not_not.1 hc))
  rwa [String.ofList_toList] at h

end Text

/-! ## A record as a line -/

namespace Record

/-- What the JSON line of a record says. -/
def jsonValue (time : String) (r : Record) : Json.Value :=
  .object [("ts", .text time), ("lvl", .text r.level.name), ("target", .text r.origin.name),
    ("msg", .text r.message)]

/-- The line of a record, character by character, with its strings where they stand. -/
theorem toList_json (time : String) (r : Record) :
    (r.json time).toList = '\x7b' :: '"' :: ("ts".toList ++ '"' :: ':' :: '"' :: (time.toList ++
      '"' :: ',' :: '"' :: ("lvl".toList ++ '"' :: ':' :: '"' :: (r.level.name.toList ++
      '"' :: ',' :: '"' :: ("target".toList ++ '"' :: ':' :: '"' :: (r.origin.name.toList ++
      '"' :: ',' :: '"' :: ("msg".toList ++ '"' :: ':' :: '"' ::
        (r.message.toList.flatMap Text.quotedChar ++ '"' :: '\x7d' :: [])))))))) := by
  simp [json, members, Text.quoted]

/-- **The JSON line of a record reads back as the record**, if its message is legible; else it is
no JSON at all. -/
theorem isText_json_iff {time : String} (htime : Json.IsPlainText time) (r : Record)
    (v : Json.Value) :
    Json.IsText (r.json time) v ↔ v = r.jsonValue time ∧ Text.IsLegible r.message := by
  have hlevel : Json.IsPlainText r.level.name := by cases r.level <;> decide
  have horigin : Json.IsPlainText r.origin.name := by cases r.origin <;> decide
  have hts : Json.IsPlainText "ts" := by decide
  have hlvl : Json.IsPlainText "lvl" := by decide
  have htarget : Json.IsPlainText "target" := by decide
  have hmsg : Json.IsPlainText "msg" := by decide
  have hquoted := Text.stands_quoted r.message
  rw [Json.isText_brace_iff (r.toList_json time)]
  constructor
  · rintro ⟨members, rest, h, -, rfl⟩
    obtain ⟨_, h₁, rfl⟩ := (Json.members_plain_iff hts htime).1 h
    obtain ⟨_, h₂, rfl⟩ := (Json.members_plain_iff hlvl hlevel).1 h₁
    obtain ⟨_, h₃, rfl⟩ := (Json.members_plain_iff htarget horigin).1 h₂
    obtain ⟨_, ⟨rfl, hlegible⟩, rfl, rfl⟩ := (Json.members_brace_iff hmsg hquoted).1 h₃
    exact ⟨rfl, hlegible⟩
  · rintro ⟨rfl, hlegible⟩
    refine ⟨_, [], (Json.members_plain_iff hts htime).2 ⟨_, ?_, rfl⟩, nofun, rfl⟩
    refine (Json.members_plain_iff hlvl hlevel).2 ⟨_, ?_, rfl⟩
    refine (Json.members_plain_iff htarget horigin).2 ⟨_, ?_, rfl⟩
    exact (Json.members_brace_iff hmsg hquoted).2 ⟨_, ⟨rfl, hlegible⟩, rfl, rfl⟩

end Record

end LosslessAudio
