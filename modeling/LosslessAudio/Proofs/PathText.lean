import LosslessAudio.Proofs.Paths
import LosslessAudio.Transcoding.Recorder

/-!
# The text of a path

Bytes are shown as text in the same way on both sides of an ASCII byte, whatever stands there
(`Text.characters_append_cons`).  A slash and a dot are such bytes, so the text of a path is the
text of its front and its components, and giving it a suffix brings no new characters into it but
those of the suffix (`Path.mem_text_withSuffix`).
-/

set_option autoImplicit false

namespace LosslessAudio

/-! ## Text around an ASCII byte -/

namespace Text

variable {b : UInt8}

theorem characters_cons (hb : b < 0x80) (rest : Bytes) :
    characters (b :: rest) = Char.ofNat b.toNat :: characters rest := by
  rw [characters, if_pos hb]

/-- The bytes that continue a character are not ASCII. -/
theorem low_le_of_continuation {first low high : UInt8} {count : Nat}
    (h : continuation first = some (count, low, high)) : 0x80 ≤ low := by
  unfold continuation at h
  split_ifs at h <;> cases h <;> decide

theorem length_continuing_le (count : Nat) (low high : UInt8) (bytes : Bytes) :
    (continuing count low high bytes).length ≤ bytes.length := by
  induction bytes generalizing count low high with
  | nil => cases count <;> exact Nat.le_refl _
  | cons b bytes ih =>
    cases count with
    | zero => exact Nat.zero_le _
    | succ count =>
      rw [continuing]
      split
      · exact Nat.succ_le_succ (ih _ _ _)
      · exact Nat.zero_le _

/-- An ASCII byte continues no character. -/
theorem continuing_append_cons (hb : b < 0x80) (count : Nat) {low high : UInt8}
    (hlow : 0x80 ≤ low) (bytes rest : Bytes) :
    continuing count low high (bytes ++ b :: rest) = continuing count low high bytes := by
  induction bytes generalizing count low high with
  | nil =>
    cases count with
    | zero => rfl
    | succ count =>
      have hless : ¬(low ≤ b ∧ b ≤ high) := fun h =>
        UInt8.not_le.2 hb (UInt8.le_trans hlow h.1)
      rw [List.nil_append, continuing, if_neg hless]
      rfl
  | cons first bytes ih =>
    cases count with
    | zero => rfl
    | succ count =>
      rw [List.cons_append, continuing, continuing, ih count (by decide)]

/-- **Text is cut at an ASCII byte** as its bytes are. -/
theorem characters_append_cons (hb : b < 0x80) (bytes rest : Bytes) :
    characters (bytes ++ b :: rest) = characters bytes ++ characters (b :: rest) := by
  induction bytes using characters.induct with
  | case1 => rw [characters, List.nil_append, List.nil_append]
  | case2 first bytes hfirst ih =>
    rw [List.cons_append, characters_cons hfirst, characters_cons hfirst, ih, List.cons_append]
  | case3 first bytes hfirst hnone ih =>
    rw [List.cons_append, characters, if_neg hfirst, hnone, characters, if_neg hfirst, hnone]
    dsimp only
    rw [ih, List.cons_append]
  | case4 first bytes hfirst count low high hsome others ih =>
    have hothers : continuing count low high (bytes ++ b :: rest) = others :=
      continuing_append_cons hb count (low_le_of_continuation hsome) bytes rest
    have hle : others.length ≤ bytes.length := length_continuing_le count low high bytes
    rw [List.cons_append, characters, if_neg hfirst, hsome, characters, if_neg hfirst, hsome]
    dsimp only
    rw [hothers, List.drop_append_of_le_length hle, ih, List.cons_append]

/-- ASCII bytes in front are characters of their own. -/
theorem characters_append {ascii : Bytes} (h : ∀ b ∈ ascii, b < 0x80) (rest : Bytes) :
    characters (ascii ++ rest) = ascii.map (Char.ofNat ·.toNat) ++ characters rest := by
  induction ascii with
  | nil => rfl
  | cons b ascii ih =>
    obtain ⟨hb, hascii⟩ := List.forall_mem_cons.1 h
    rw [List.cons_append, characters_cons hb, ih hascii, List.map_cons, List.cons_append]

end Text

/-! ## Components -/

namespace Path

open Text (characters characters_cons characters_append_cons characters_append)

variable {p : Path} {c : Char}

@[simp] theorem toList_text (p : Path) : p.text.toList = characters p.bytes :=
  String.toList_ofList

theorem characters_slash_cons (rest : Bytes) :
    characters (slash :: rest) = '/' :: characters rest :=
  characters_cons (by decide) rest

theorem join_cons_cons (first second : Bytes) (others : List Bytes) :
    join (first :: second :: others) = first ++ slash :: join (second :: others) := rfl

/-- The characters of components that are joined. -/
theorem mem_characters_join {components : List Bytes} (h : c ∈ characters (join components)) :
    c = '/' ∨ ∃ component ∈ components, c ∈ characters component := by
  induction components with
  | nil => simp [join, characters] at h
  | cons first others ih =>
    cases others with
    | nil => exact .inr ⟨first, .head _, h⟩
    | cons second others =>
      rw [join_cons_cons, characters_append_cons (by decide), characters_slash_cons] at h
      rcases List.mem_append.1 h with h | h
      · exact .inr ⟨first, .head _, h⟩
      rcases List.mem_cons.1 h with h | h
      · exact .inl h
      rcases ih h with h | ⟨component, hmem, h⟩
      · exact .inl h
      · exact .inr ⟨component, .tail _ hmem, h⟩

/-- Those of each component are among them. -/
theorem mem_characters_join_of_mem {components : List Bytes} {component : Bytes}
    (hmem : component ∈ components) (h : c ∈ characters component) :
    c ∈ characters (join components) := by
  induction components with
  | nil => cases hmem
  | cons first others ih =>
    cases others with
    | nil =>
      obtain rfl := List.mem_singleton.1 hmem
      exact h
    | cons second others =>
      rw [join_cons_cons, characters_append_cons (by decide), characters_slash_cons]
      rcases List.mem_cons.1 hmem with rfl | hmem
      · exact List.mem_append_left _ h
      · exact List.mem_append_right _ (.tail _ (ih hmem))

/-- In front of its components a path has at most a slash or a dot. -/
theorem mem_front {b : UInt8} (h : b ∈ p.front) : b = slash ∨ b = dot := by
  cases hbytes : p.bytes with
  | nil => simp [front, hbytes] at h
  | cons first rest =>
    rw [front_of_cons hbytes] at h
    split_ifs at h with hfirst
    · obtain rfl := List.mem_singleton.1 h
      exact hfirst.imp_right And.left
    · cases h

theorem lt_of_mem_front {b : UInt8} (h : b ∈ p.front) : b < 0x80 := by
  rcases mem_front h with rfl | rfl <;> decide

/-- The characters of a path are those of its components, slashes and dots. -/
theorem mem_characters_front_append {components : List Bytes}
    (h : c ∈ characters (p.front ++ join components)) :
    c = '/' ∨ c = '.' ∨ ∃ component ∈ components, c ∈ characters component := by
  rw [characters_append fun _ => lt_of_mem_front] at h
  rcases List.mem_append.1 h with h | h
  · obtain ⟨b, hb, rfl⟩ := List.mem_map.1 h
    rcases mem_front hb with rfl | rfl
    · exact .inl rfl
    · exact .inr (.inl rfl)
  · exact (mem_characters_join h).imp_right .inr

/-- Every component of a path is seen in its text. -/
theorem mem_text_of_mem_components {component : Bytes} (hmem : component ∈ p.components)
    (h : c ∈ characters component) : c ∈ p.text.toList := by
  rw [toList_text, ← p.front_append_join, characters_append fun _ => lt_of_mem_front]
  exact List.mem_append_right _ (mem_characters_join_of_mem hmem h)

/-- **A suffix brings no new characters** into the text of a path, but for its own and the signs
that divide a path. -/
theorem mem_text_withSuffix {extension : Bytes} (hne : extension ≠ [])
    (h : c ∈ (p.withSuffix extension).text.toList) :
    c ∈ p.text.toList ∨ c = '/' ∨ c = '.' ∨ c ∈ characters extension := by
  cases hname : p.fileName? with
  | none =>
    rw [withSuffix_of_fileName?_eq_none hname] at h
    exact .inl h
  | some name =>
    by_cases hsame : p.extension? = some extension
    · rw [withSuffix_of_extension? hsame] at h
      exact .inl h
    obtain ⟨init, hwith, -, hinit, -⟩ := exists_withSuffix hname hsame hne
    rw [hwith, toList_text] at h
    rcases mem_characters_front_append h with h | h | ⟨component, hmem, h⟩
    · exact .inr (.inl h)
    · exact .inr (.inr (.inl h))
    rcases List.mem_append.1 hmem with hmem | hmem
    · rcases hinit component hmem with hmem | rfl
      · exact .inl (mem_text_of_mem_components hmem h)
      · simp [characters] at h
    · obtain rfl := List.mem_singleton.1 hmem
      rw [addExtension, characters_append_cons (by decide)] at h
      rcases List.mem_append.1 h with h | h
      · obtain ⟨before, htrim, -⟩ := exists_of_fileName? hname
        obtain ⟨-, rest, hcomponents⟩ := exists_of_trimEnd htrim
        have hmem : name ∈ p.components := hcomponents ▸ List.mem_append_right _ (.head _)
        exact .inl (mem_text_of_mem_components hmem h)
      rw [characters_cons (by decide)] at h
      exact .inr (.inr ((List.mem_cons.1 h).imp_right id))

end Path

end LosslessAudio
