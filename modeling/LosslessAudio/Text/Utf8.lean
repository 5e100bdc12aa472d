import LosslessAudio.Bits

/-!
# Text from bytes

Bytes that need not be well-formed UTF-8 are shown as text by putting the replacement character for
each stretch that begins like a character but is cut short, and for each byte that cannot begin one.
-/

set_option autoImplicit false

namespace LosslessAudio.Text

/-- What stands for bytes that are no text. -/
def replacement : Char := '\uFFFD'

/-- How a character of several bytes goes on behind its first byte: how many bytes follow, and the
range of the next one.  All later ones lie between 0x80 and 0xBF. -/
def continuation (first : UInt8) : Option (Nat × UInt8 × UInt8) :=
  if first < 0xC2 then none
  else if first < 0xE0 then some (1, 0x80, 0xBF)
  else if first = 0xE0 then some (2, 0xA0, 0xBF)
  else if first = 0xED then some (2, 0x80, 0x9F)
  else if first < 0xF0 then some (2, 0x80, 0xBF)
  else if first = 0xF0 then some (3, 0x90, 0xBF)
  else if first < 0xF4 then some (3, 0x80, 0xBF)
  else if first = 0xF4 then some (3, 0x80, 0x8F)
  else none

/-- The bytes that continue a character, `count` of them at most. -/
def continuing : (count : Nat) → (low high : UInt8) → Bytes → Bytes
  | count + 1, low, high, b :: rest =>
    if low ≤ b ∧ b ≤ high then b :: continuing count 0x80 0xBF rest else []
  | _, _, _, _ => []

/-- The character that its bytes write. -/
def character (first : UInt8) (others : Bytes) : Char :=
  let lead := first.toNat % (1 <<< (6 - others.length))
  Char.ofNat (others.foldl (fun n b ↦ 64 * n + b.toNat % 64) lead)

/-- The characters that bytes write. -/
def characters : Bytes → List Char
  | [] => []
  | b :: rest =>
    if b < 0x80 then Char.ofNat b.toNat :: characters rest
    else
      match continuation b with
      | none => replacement :: characters rest
      | some (count, low, high) =>
        let others := continuing count low high rest
        (if others.length = count then character b others else replacement) ::
          characters (rest.drop others.length)
termination_by bytes => bytes.length
decreasing_by
  all_goals simp only [List.length_cons, List.length_drop]
  all_goals omega

/-- The text that bytes write. -/
def ofBytes (bytes : Bytes) : String :=
  String.ofList (characters bytes)

end LosslessAudio.Text
