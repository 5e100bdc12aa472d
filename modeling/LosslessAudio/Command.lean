import LosslessAudio.Bits.Rice
import LosslessAudio.Fault

/-!
# Commands

The body of a stream is a sequence of commands, each opened by its code, a Rice code with two
remainder bits.  Audio commands carry one block of samples of one channel; the others change the
state of the decoder, carry bytes to be ignored, or end the stream.
-/

set_option autoImplicit false

namespace LosslessAudio

/-- What the next bits of a stream stand for. -/
inductive Command where
  | diff0
  | diff1
  | diff2
  | diff3
  | quit
  | blockSize
  | bitshift
  | qlpc
  | zero
  | verbatim
  deriving DecidableEq, Repr

namespace Command

/-- The Rice parameter of command codes. -/
def codeParameter : Nat := 2

/-- A command is not looked for among fewer bits than this. -/
def minimalBits : Nat := 5

/-- All commands, each at the place its code names. -/
def all : List Command :=
  [.diff0, .diff1, .diff2, .diff3, .quit, .blockSize, .bitshift, .qlpc, .zero, .verbatim]

/-- The command with a given code. -/
def ofCode? (code : Nat) : Option Command :=
  all[code]?

/-- The code of a command. -/
def code : Command → Nat
  | .diff0 => 0
  | .diff1 => 1
  | .diff2 => 2
  | .diff3 => 3
  | .quit => 4
  | .blockSize => 5
  | .bitshift => 6
  | .qlpc => 7
  | .zero => 8
  | .verbatim => 9

/-- The order of the polynomial predictor a command stands for. -/
def fixedOrder? : Command → Option (Fin 4)
  | .diff0 => some 0
  | .diff1 => some 1
  | .diff2 => some 2
  | .diff3 => some 3
  | _ => none

/-- Whether a command carries a block of samples. -/
def isAudio : Command → Bool
  | .diff0 | .diff1 | .diff2 | .diff3 | .qlpc | .zero => true
  | .quit | .blockSize | .bitshift | .verbatim => false

/-- The name of a command in the log. -/
def name : Command → String
  | .diff0 => "DIFF0"
  | .diff1 => "DIFF1"
  | .diff2 => "DIFF2"
  | .diff3 => "DIFF3"
  | .quit => "QUIT"
  | .blockSize => "BLOCKSIZE"
  | .bitshift => "BITSHIFT"
  | .qlpc => "QLPC"
  | .zero => "ZERO"
  | .verbatim => "VERBATIM"

@[simp] theorem ofCode?_code (c : Command) : ofCode? c.code = some c := by
  cases c <;> rfl

/-- Reads a command code. -/
def read (r : BitReader) : Except Fault (Command × BitReader) := do
  let (code, r) ← r.rice codeParameter
  match ofCode? code.toNat with
  | some c => return (c, r)
  | none => throw (.command (.unknown code.toNat))

/-- A command code has at least three bits. -/
theorem passes_of_read {r r' : BitReader} {c : Command} (h : read r = .ok (c, r')) :
    ∃ q, r.Passes (q + 3) r' := by
  obtain ⟨⟨code, r₁⟩, hcode, h⟩ := bind_eq_ok.1 h
  obtain ⟨q, hq⟩ := BitReader.passes_of_rice (lift_read_eq_ok.1 hcode)
  dsimp only at h
  split at h
  · cases h
    exact ⟨q, hq⟩
  · cases h

end Command

end LosslessAudio
