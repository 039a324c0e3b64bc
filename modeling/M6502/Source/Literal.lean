import M6502.InstructionSet.OperandText

/-!
# Literals

What an operand or an argument of a directive can be: a number in one of
three radices, or the name of a label.
-/

set_option autoImplicit false

namespace M6502

open Text

inductive Literal where
  | number (n : Nat)
  | name (s : List Char)
  deriving DecidableEq, Repr

namespace Literal

def bound : Nat := bitBound 32

def read? : List Char → Option Literal
  | '$' :: digits => (readNumber 16 bound digits).map .number
  | '%' :: digits => (readNumber 2 bound digits).map .number
  | [] => none
  | s@(c :: _) =>
    if c.isDigit then (readNumber 10 bound s).map .number
    else if isIdent s then some (.name s)
    else none

def core (operand : List Char) : List Char :=
  (operand.dropWhile fun c => c == '#' || c == '(').takeWhile fun c => c != ',' && c != ')'

def signed (n : Nat) : Int :=
  if n < bitBound 31 then n else (n : Int) - bitBound 32

end Literal

end M6502
