import Mathlib.Data.List.Basic

/-!
# The grammar of JSON

Each rule of the grammar relates an input to what its front part stands for and to the rest behind
that part.  `IsText line v` says that the whole of a line is one JSON text, and `v` its value.

* `Value` — JSON values; a string is the text that it stands for, its escapes resolved.
* `Chars`, `Reads` — the grammar of strings and of values.
* `Stands` — which texts a spelling between quotes stands for.  A text that is spelled character by
  character stands for itself unless one of them breaks the string (`stands_flatMap`).
* `members_comma_iff`, `members_brace_iff` — reading an object whose members are strings.
-/

set_option autoImplicit false

namespace LosslessAudio.Json

/-- A JSON value.  A number is kept as it is written. -/
inductive Value where
  | null
  | boolean (value : Bool)
  | number (spelling : String)
  | text (value : String)
  | array (elements : List Value)
  | object (members : List (String × Value))

/-! ## The grammar -/

/-- A character that stands for itself in a string. -/
def IsPlain (c : Char) : Prop :=
  0x20 ≤ c.toNat ∧ c ≠ '"' ∧ c ≠ '\\'

instance (c : Char) : Decidable (IsPlain c) :=
  inferInstanceAs (Decidable (_ ∧ _))

/-- A text that stands for itself between quotes. -/
def IsPlainText (text : String) : Prop :=
  ∀ c ∈ text.toList, IsPlain c

instance (text : String) : Decidable (IsPlainText text) :=
  List.decidableBAll IsPlain text.toList

/-- What a letter behind a backslash stands for. -/
def escape? : Char → Option Char
  | '"' => some '"'
  | '\\' => some '\\'
  | '/' => some '/'
  | 'b' => some '\x08'
  | 'f' => some '\x0C'
  | 'n' => some '\n'
  | 'r' => some '\r'
  | 't' => some '\t'
  | _ => none

/-- The value of a hexadecimal digit. -/
def hexDigit? (c : Char) : Option Nat :=
  if '0' ≤ c ∧ c ≤ '9' then some (c.toNat - '0'.toNat)
  else if 'a' ≤ c ∧ c ≤ 'f' then some (c.toNat - 'a'.toNat + 10)
  else if 'A' ≤ c ∧ c ≤ 'F' then some (c.toNat - 'A'.toNat + 10)
  else none

/-- The UTF-16 code unit that four hexadecimal digits write. -/
def codeUnit? : List Char → Option Nat
  | [a, b, c, d] => do
    return 4096 * (← hexDigit? a) + 256 * (← hexDigit? b) + 16 * (← hexDigit? c) + (← hexDigit? d)
  | _ => none

/-- A string from behind its first quote: its characters, and what follows its last quote.  The
halves of a surrogate pair stand for one character, and for none without each other. -/
inductive Chars : List Char → List Char → List Char → Prop
  | close (rest : List Char) : Chars ('"' :: rest) [] rest
  | plain {input text rest : List Char} {c : Char} (hc : IsPlain c) (h : Chars input text rest) :
      Chars (c :: input) (c :: text) rest
  | escaped {input text rest : List Char} {e c : Char} (hc : escape? e = some c)
      (h : Chars input text rest) : Chars ('\\' :: e :: input) (c :: text) rest
  | unit {input text rest digits : List Char} {n : Nat} (hdigits : codeUnit? digits = some n)
      (hn : n.isValidChar) (h : Chars input text rest) :
      Chars ('\\' :: 'u' :: (digits ++ input)) (Char.ofNat n :: text) rest
  | pair {input text rest digits digits' : List Char} {high low : Nat}
      (hdigits : codeUnit? digits = some (0xD800 + high)) (hhigh : high < 0x400)
      (hdigits' : codeUnit? digits' = some (0xDC00 + low)) (hlow : low < 0x400)
      (h : Chars input text rest) :
      Chars ('\\' :: 'u' :: (digits ++ '\\' :: 'u' :: (digits' ++ input)))
        (Char.ofNat (0x10000 + 0x400 * high + low) :: text) rest

/-- A stretch of characters between which values and signs may stand. -/
def Blank (cs : List Char) : Prop :=
  ∀ c ∈ cs, c ∈ [' ', '\t', '\n', '\r']

/-- Decimal digits, at least one. -/
def IsDigits (cs : List Char) : Prop :=
  cs ≠ [] ∧ ∀ c ∈ cs, c.isDigit

/-- A number: a sign, digits that do not begin with a spare zero, decimal places, an exponent. -/
inductive IsNumber : List Char → Prop
  | mk {sign whole places exponent : List Char}
      (hsign : sign ∈ [[], ['-']])
      (hwhole : IsDigits whole ∧ (whole.head? = some '0' → whole = ['0']))
      (hplaces : places = [] ∨ ∃ digits, IsDigits digits ∧ places = '.' :: digits)
      (hexponent : exponent = [] ∨ ∃ e ∈ ['e', 'E'], ∃ esign ∈ [[], ['+'], ['-']],
        ∃ digits, IsDigits digits ∧ exponent = e :: esign ++ digits) :
      IsNumber (sign ++ whole ++ places ++ exponent)

mutual

/-- A value at the front of the input, and what follows it. -/
inductive Reads : List Char → Value → List Char → Prop
  | null (rest : List Char) : Reads ("null".toList ++ rest) .null rest
  | false (rest : List Char) : Reads ("false".toList ++ rest) (.boolean .false) rest
  | true (rest : List Char) : Reads ("true".toList ++ rest) (.boolean .true) rest
  | number {spelling : List Char} (h : IsNumber spelling) (rest : List Char) :
      Reads (spelling ++ rest) (.number (String.ofList spelling)) rest
  | text {input text rest : List Char} (h : Chars input text rest) :
      Reads ('"' :: input) (.text (String.ofList text)) rest
  | emptyArray {blank : List Char} (hblank : Blank blank) (rest : List Char) :
      Reads ('[' :: (blank ++ ']' :: rest)) (.array []) rest
  | array {input rest : List Char} {elements : List Value} (h : Elements input elements rest) :
      Reads ('[' :: input) (.array elements) rest
  | emptyObject {blank : List Char} (hblank : Blank blank) (rest : List Char) :
      Reads ('\x7b' :: (blank ++ '\x7d' :: rest)) (.object []) rest
  | object {input rest : List Char} {members : List (String × Value)}
      (h : Members input members rest) : Reads ('\x7b' :: input) (.object members) rest

/-- A value with blanks around it. -/
inductive Element : List Char → Value → List Char → Prop
  | mk {before input after rest : List Char} {v : Value} (hbefore : Blank before)
      (h : Reads input v (after ++ rest)) (hafter : Blank after) : Element (before ++ input) v rest

/-- The elements of an array, to its closing bracket. -/
inductive Elements : List Char → List Value → List Char → Prop
  | last {input rest : List Char} {v : Value} (h : Element input v (']' :: rest)) :
      Elements input [v] rest
  | cons {input input' rest : List Char} {v : Value} {elements : List Value}
      (h : Element input v (',' :: input')) (h' : Elements input' elements rest) :
      Elements input (v :: elements) rest

/-- The name and the value of a member, with blanks around them. -/
inductive Member : List Char → String × Value → List Char → Prop
  | mk {before input name between input' rest : List Char} {v : Value} (hbefore : Blank before)
      (hname : Chars input name (between ++ ':' :: input')) (hbetween : Blank between)
      (h : Element input' v rest) : Member (before ++ '"' :: input) (String.ofList name, v) rest

/-- The members of an object, to its closing brace. -/
inductive Members : List Char → List (String × Value) → List Char → Prop
  | last {input rest : List Char} {m : String × Value} (h : Member input m ('\x7d' :: rest)) :
      Members input [m] rest
  | cons {input input' rest : List Char} {m : String × Value} {members : List (String × Value)}
      (h : Member input m (',' :: input')) (h' : Members input' members rest) :
      Members input (m :: members) rest

end

/-- A line is a JSON text with this value. -/
def IsText (line : String) (v : Value) : Prop :=
  Element line.toList v []

/-! ## The front of an input -/

theorem eq_nil_of_blank {blank input rest : List Char} {c : Char} (hblank : Blank blank)
    (hc : c ∉ [' ', '\t', '\n', '\r']) (h : blank ++ input = c :: rest) : blank = [] := by
  cases blank with
  | nil => rfl
  | cons b blank =>
    obtain rfl : b = c := (List.cons.inj h).1
    exact absurd (hblank b (.head _)) hc

/-- A number begins with a minus sign or a digit. -/
theorem IsNumber.exists_cons {spelling : List Char} (h : IsNumber spelling) :
    ∃ c rest, spelling = c :: rest ∧ (c = '-' ∨ c.isDigit) := by
  obtain ⟨hsign, ⟨⟨hne, hdigits⟩, -⟩, -, -⟩ := h
  obtain ⟨c, rest, rfl⟩ := List.exists_cons_of_ne_nil hne
  rcases List.mem_cons.1 hsign with rfl | hsign
  · exact ⟨c, _, rfl, .inr (hdigits c (.head _))⟩
  · obtain rfl := List.mem_singleton.1 hsign
    exact ⟨'-', _, rfl, .inl rfl⟩

/-- What begins with a quote is a string. -/
theorem reads_quote_iff {input rest : List Char} {v : Value} :
    Reads ('"' :: input) v rest ↔
      ∃ text, Chars input text rest ∧ v = .text (String.ofList text) := by
  constructor
  · intro h
    generalize hinput : '"' :: input = whole at h
    cases h with
    | text h =>
      obtain rfl := (List.cons.inj hinput).2
      exact ⟨_, h, rfl⟩
    | number h =>
      obtain ⟨c, cs, rfl, hc⟩ := h.exists_cons
      obtain rfl := (List.cons.inj hinput).1
      exact absurd hc (by decide)
    | null | false | true => exact absurd (List.cons.inj hinput).1 (by decide)
    | emptyArray | array | emptyObject | object =>
      exact absurd (List.cons.inj hinput).1 (by decide)
  · rintro ⟨text, h, rfl⟩
    exact .text h

/-- What begins with a brace, and a member behind it, is an object. -/
theorem reads_brace_iff {input rest : List Char} {v : Value} :
    Reads ('\x7b' :: '"' :: input) v rest ↔
      ∃ members, Members ('"' :: input) members rest ∧ v = .object members := by
  constructor
  · intro h
    generalize hinput : '\x7b' :: '"' :: input = whole at h
    cases h with
    | object h =>
      obtain rfl := (List.cons.inj hinput).2
      exact ⟨_, h, rfl⟩
    | emptyObject hblank =>
      have hinput := (List.cons.inj hinput).2
      obtain rfl := eq_nil_of_blank hblank (by decide) hinput.symm
      exact absurd (List.cons.inj hinput).1 (by decide)
    | number h =>
      obtain ⟨c, cs, rfl, hc⟩ := h.exists_cons
      obtain rfl := (List.cons.inj hinput).1
      exact absurd hc (by decide)
    | null | false | true => exact absurd (List.cons.inj hinput).1 (by decide)
    | text | emptyArray | array => exact absurd (List.cons.inj hinput).1 (by decide)
  · rintro ⟨members, h, rfl⟩
    exact .object h

/-! ## Strings -/

theorem chars_quote_iff {tail text rest : List Char} :
    Chars ('"' :: tail) text rest ↔ text = [] ∧ rest = tail := by
  constructor
  · intro h
    cases h with
    | close => exact ⟨rfl, rfl⟩
    | plain hc => exact absurd rfl hc.2.1
  · rintro ⟨rfl, rfl⟩
    exact .close _

/-- At the front of a string, `head` writes the character `c`. -/
def Writes (head : List Char) (c : Char) : Prop :=
  ∀ input text rest, Chars (head ++ input) text rest ↔
    ∃ text', text = c :: text' ∧ Chars input text' rest

/-- No string begins with `head`. -/
def Breaks (head : List Char) : Prop :=
  ∀ input text rest, ¬Chars (head ++ input) text rest

theorem writes_plain {c : Char} (hc : IsPlain c) : Writes [c] c := by
  intro input text rest
  constructor
  · intro h
    cases h with
    | close => exact absurd rfl hc.2.1
    | plain _ h => exact ⟨_, rfl, h⟩
    | escaped | unit | pair => exact absurd rfl hc.2.2
  · rintro ⟨text', rfl, h⟩
    exact .plain hc h

theorem writes_escaped {e c : Char} (hc : escape? e = some c) : Writes ['\\', e] c := by
  intro input text rest
  constructor
  · intro h
    cases h with
    | plain hc => exact absurd rfl hc.2.2
    | escaped hc' h =>
      obtain rfl := Option.some.inj (hc.symm.trans hc')
      exact ⟨_, rfl, h⟩
    | unit | pair => cases hc
  · rintro ⟨text', rfl, h⟩
    exact .escaped hc h

/-- A letter behind a backslash has to be a known one. -/
theorem breaks_escaped {e : Char} (he : escape? e = none) (hu : e ≠ 'u') : Breaks ['\\', e] := by
  intro input text rest h
  cases h with
  | plain hc => exact absurd rfl hc.2.2
  | escaped hc => exact absurd (he.symm.trans hc) nofun
  | unit | pair => exact hu rfl

theorem exists_of_codeUnit? {digits : List Char} {n : Nat} (h : codeUnit? digits = some n) :
    ∃ first others, digits = first :: others ∧ hexDigit? first ≠ none := by
  unfold codeUnit? at h
  split at h
  · obtain ⟨value, hvalue, -⟩ := Option.bind_eq_some_iff.1 h
    exact ⟨_, _, rfl, by simp [hvalue]⟩
  · cases h

/-- Behind the letter `u` there have to be hexadecimal digits. -/
theorem breaks_unit {d : Char} (hd : hexDigit? d = none) (more : List Char) :
    Breaks ('\\' :: 'u' :: d :: more) := by
  intro input text rest h
  generalize hinput : '\\' :: 'u' :: d :: more ++ input = whole at h
  cases h with
  | close => exact absurd (List.cons.inj hinput).1 (by decide)
  | plain hc => exact absurd (List.cons.inj hinput).1.symm hc.2.2
  | escaped hc =>
    obtain rfl := (List.cons.inj (List.cons.inj hinput).2).1
    cases hc
  | unit hdigits | pair hdigits =>
    obtain ⟨first, others, rfl, hfirst⟩ := exists_of_codeUnit? hdigits
    obtain rfl := (List.cons.inj (List.cons.inj (List.cons.inj hinput).2).2).1
    exact hfirst hd

/-- Up to a closing quote, a spelling stands for the texts of a set, and for no others. -/
def Stands (spelling : List Char) (texts : String → Prop) : Prop :=
  ∀ tail text rest, Chars (spelling ++ '"' :: tail) text rest ↔
    texts (String.ofList text) ∧ rest = tail

/-- A text that is spelled character by character can be read back if no character breaks it. -/
theorem stands_flatMap {write : Char → List Char} {good : Char → Prop} (text : List Char)
    (hgood : ∀ c ∈ text, good c → Writes (write c) c)
    (hbad : ∀ c ∈ text, ¬good c → Breaks (write c)) :
    Stands (text.flatMap write) fun t => t = String.ofList text ∧ ∀ c ∈ text, good c := by
  intro tail text' rest
  show _ ↔ (String.ofList text' = String.ofList text ∧ _) ∧ _
  rw [String.ofList_inj]
  induction text generalizing text' with
  | nil =>
    rw [List.flatMap_nil, List.nil_append, chars_quote_iff]
    simp
  | cons c text ih =>
    have ih := ih (fun c hc => hgood c (.tail _ hc)) (fun c hc => hbad c (.tail _ hc))
    rw [List.flatMap_cons, List.append_assoc]
    by_cases hc : good c
    · rw [hgood c (.head _) hc]
      constructor
      · rintro ⟨text', rfl, h⟩
        obtain ⟨⟨rfl, hall⟩, rfl⟩ := (ih text').1 h
        exact ⟨⟨rfl, List.forall_mem_cons.2 ⟨hc, hall⟩⟩, rfl⟩
      · rintro ⟨⟨rfl, hall⟩, rfl⟩
        exact ⟨text, rfl, (ih text).2 ⟨⟨rfl, (List.forall_mem_cons.1 hall).2⟩, rfl⟩⟩
    · exact iff_of_false (hbad c (.head _) hc _ _ _) fun h => hc (h.1.2 c (.head _))

theorem stands_plain {text : String} (h : IsPlainText text) : Stands text.toList (· = text) := by
  have hstands := stands_flatMap text.toList (fun c _ => writes_plain)
    (fun c hc hbad => absurd (h c hc) hbad)
  intro tail text' rest
  have hread := hstands tail text' rest
  rw [List.flatMap_singleton', String.ofList_toList] at hread
  exact hread.trans (and_congr_left' (and_iff_left h))

/-! ## Objects of strings -/

/-- No blanks have to stand around a value. -/
theorem element_of_reads {input rest : List Char} {v : Value} (h : Reads input v rest) :
    Element input v rest :=
  @Element.mk [] input [] rest v nofun h nofun

section

variable {name : String} {spelling tail : List Char} {texts : String → Prop} {c : Char}

theorem element_quote_iff (hspelling : Stands spelling texts) (hc : c ∉ [' ', '\t', '\n', '\r'])
    {v : Value} {rest : List Char} :
    Element ('"' :: (spelling ++ '"' :: c :: tail)) v rest ↔
      ∃ text, texts text ∧ v = .text text ∧ rest = c :: tail := by
  constructor
  · intro h
    generalize hinput : '"' :: (spelling ++ '"' :: c :: tail) = whole at h
    obtain ⟨hbefore, h, hafter⟩ := h
    obtain rfl := eq_nil_of_blank hbefore (by decide) hinput.symm
    rw [List.nil_append] at hinput
    rw [← hinput, reads_quote_iff] at h
    obtain ⟨text, h, rfl⟩ := h
    obtain ⟨htext, hrest⟩ := (hspelling ..).1 h
    obtain rfl := eq_nil_of_blank hafter hc hrest
    exact ⟨_, htext, rfl, hrest⟩
  · rintro ⟨text, htext, rfl, rfl⟩
    refine element_of_reads (reads_quote_iff.2 ⟨text.toList, ?_, ?_⟩)
    · exact (hspelling ..).2 ⟨String.ofList_toList ▸ htext, rfl⟩
    · rw [String.ofList_toList]

/-- A member whose name is plain. -/
theorem member_iff (hname : IsPlainText name) (hspelling : Stands spelling texts)
    (hc : c ∉ [' ', '\t', '\n', '\r']) {m : String × Value} {rest : List Char} :
    Member ('"' :: (name.toList ++ '"' :: ':' :: '"' :: (spelling ++ '"' :: c :: tail))) m rest ↔
      ∃ text, texts text ∧ m = (name, .text text) ∧ rest = c :: tail := by
  constructor
  · intro h
    generalize hinput :
      '"' :: (name.toList ++ '"' :: ':' :: '"' :: (spelling ++ '"' :: c :: tail)) = whole at h
    obtain ⟨hbefore, hread, hbetween, h⟩ := h
    obtain rfl := eq_nil_of_blank hbefore (by decide) hinput.symm
    obtain rfl := (List.cons.inj hinput).2
    obtain ⟨rfl, hrest⟩ := (stands_plain hname ..).1 hread
    obtain rfl := eq_nil_of_blank hbetween (by decide) hrest
    obtain rfl := (List.cons.inj hrest).2
    obtain ⟨text, htext, rfl, rfl⟩ := (element_quote_iff hspelling hc).1 h
    exact ⟨text, htext, rfl, rfl⟩
  · rintro ⟨text, htext, rfl, rfl⟩
    have hread := (stands_plain hname (':' :: '"' :: (spelling ++ '"' :: c :: tail)) _ _).2
      ⟨String.ofList_toList, rfl⟩
    have h := @Member.mk [] _ _ [] _ _ _ nofun hread nofun
      ((element_quote_iff hspelling hc).2 ⟨text, htext, rfl, rfl⟩)
    rwa [String.ofList_toList] at h

/-- Members that begin with one whose value is a string. -/
theorem members_comma_iff (hname : IsPlainText name) (hspelling : Stands spelling texts)
    {members : List (String × Value)} {rest : List Char} :
    Members ('"' :: (name.toList ++ '"' :: ':' :: '"' :: (spelling ++ '"' :: ',' :: tail)))
        members rest ↔
      ∃ text, texts text ∧ ∃ members', Members tail members' rest ∧
        members = (name, .text text) :: members' := by
  constructor
  · intro h
    cases h with
    | last h =>
      obtain ⟨_, _, -, hrest⟩ := (member_iff hname hspelling (by decide)).1 h
      exact absurd (List.cons.inj hrest).1 (by decide)
    | cons h h' =>
      obtain ⟨text, htext, rfl, hrest⟩ := (member_iff hname hspelling (by decide)).1 h
      obtain rfl := (List.cons.inj hrest).2
      exact ⟨text, htext, _, h', rfl⟩
  · rintro ⟨text, htext, members', h, rfl⟩
    exact .cons ((member_iff hname hspelling (by decide)).2 ⟨text, htext, rfl, rfl⟩) h

theorem members_plain_iff {text : String} (hname : IsPlainText name)
    (htext : IsPlainText text) {members : List (String × Value)} {rest : List Char} :
    Members ('"' :: (name.toList ++ '"' :: ':' :: '"' :: (text.toList ++ '"' :: ',' :: tail)))
        members rest ↔
      ∃ members', Members tail members' rest ∧ members = (name, .text text) :: members' := by
  rw [members_comma_iff hname (stands_plain htext)]
  exact exists_eq_left

/-- Members of which only one is left. -/
theorem members_brace_iff (hname : IsPlainText name) (hspelling : Stands spelling texts)
    {members : List (String × Value)} {rest : List Char} :
    Members ('"' :: (name.toList ++ '"' :: ':' :: '"' :: (spelling ++ '"' :: '\x7d' :: tail)))
        members rest ↔
      ∃ text, texts text ∧ members = [(name, .text text)] ∧ rest = tail := by
  constructor
  · intro h
    cases h with
    | last h =>
      obtain ⟨text, htext, rfl, hrest⟩ := (member_iff hname hspelling (by decide)).1 h
      exact ⟨text, htext, rfl, (List.cons.inj hrest).2⟩
    | cons h h' =>
      obtain ⟨_, _, -, hrest⟩ := (member_iff hname hspelling (by decide)).1 h
      exact absurd (List.cons.inj hrest).1 (by decide)
  · rintro ⟨text, htext, rfl, rfl⟩
    exact .last ((member_iff hname hspelling (by decide)).2 ⟨text, htext, rfl, rfl⟩)

end

/-- A line that begins with a brace, and a member behind it, is a JSON text if it is an object. -/
theorem isText_brace_iff {line : String} {input : List Char} {v : Value}
    (hline : line.toList = '\x7b' :: '"' :: input) :
    IsText line v ↔
      ∃ members rest, Members ('"' :: input) members rest ∧ Blank rest ∧ v = .object members := by
  rw [IsText, hline]
  constructor
  · intro h
    generalize hinput : '\x7b' :: '"' :: input = whole at h
    obtain ⟨hbefore, h, hafter⟩ := h
    obtain rfl := eq_nil_of_blank hbefore (by decide) hinput.symm
    rw [List.nil_append] at hinput
    rw [← hinput, reads_brace_iff, List.append_nil] at h
    obtain ⟨members, h, rfl⟩ := h
    exact ⟨members, _, h, hafter, rfl⟩
  · rintro ⟨members, rest, h, hblank, rfl⟩
    have h := reads_brace_iff.2 ⟨members, (List.append_nil rest).symm ▸ h, rfl⟩
    exact @Element.mk [] _ rest [] _ nofun h hblank

end LosslessAudio.Json
