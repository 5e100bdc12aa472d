/-!
# Hexadecimal numbers

Numbers as fault messages show them: `0x` and upper-case digits, zeros in front up to a fixed
width.
-/

set_option autoImplicit false

namespace LosslessAudio.Text

/-- `n` with the mark `0x` and at least `digits` upper-case hexadecimal digits. -/
def hex (digits n : Nat) : String :=
  let shown := (Nat.toDigits 16 n).map Char.toUpper
  "0x" ++ String.ofList (List.replicate (digits - shown.length) '0' ++ shown)

end LosslessAudio.Text
