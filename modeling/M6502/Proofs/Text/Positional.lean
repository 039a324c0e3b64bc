import M6502.Proofs.Text.Hexadecimal
import Mathlib.Data.Nat.Digits.Lemmas

/-!
# Numerals and the numbers they denote

A digit counts as much as its place says. The reader of numerals goes from
left to right and refuses what does not stay below its bound; what it does
not refuse is the number that the places make.
-/

set_option autoImplicit false

namespace M6502.Text

section Digits

variable {radix : Nat} {c : Char} {s : List Char}

end Digits

end M6502.Text
