import M6502.Text.Blank
import M6502.Text.Numeral

/-!
# Addresses on a command line

An address is hexadecimal behind a mark and decimal without one.
-/

set_option autoImplicit false

namespace M6502.Text

def readAddress (bound : Nat) : List Char → Option Nat
  | '0' :: 'x' :: digits => readNumber 16 bound digits
  | '$' :: digits => readNumber 16 bound digits
  | digits => readNumber 10 bound digits

def readLooseAddress (bound : Nat) (s : List Char) : Option Nat :=
  match trim s with
  | '0' :: 'X' :: digits => readNumber 16 bound digits
  | s => readAddress bound s

theorem readAddress_lt {bound n : Nat} {s : List Char} (h : readAddress bound s = some n) :
    n < bound := by
  unfold readAddress at h
  split at h <;> exact readNumber_lt h

theorem readLooseAddress_lt {bound n : Nat} {s : List Char}
    (h : readLooseAddress bound s = some n) : n < bound := by
  unfold readLooseAddress at h
  split at h
  · exact readNumber_lt h
  · exact readAddress_lt h

end M6502.Text
