/-!
# Addressing modes

The twelve ways in which an instruction names its operand, and how long an
instruction of each is.
-/

set_option autoImplicit false

namespace M6502

/-- The ways to name an operand. Shifts and rotates in the implied mode act on the accumulator. -/
inductive AddressingMode where
  | implied | immediate | zeroPage | zeroPageX | zeroPageY | absolute | absoluteX | absoluteY
  | indirect | indirectX | indirectY | relative
  deriving DecidableEq, Repr

namespace AddressingMode

def all : List AddressingMode :=
  [.implied, .immediate, .zeroPage, .zeroPageX, .zeroPageY, .absolute, .absoluteX, .absoluteY,
    .indirect, .indirectX, .indirectY, .relative]

theorem mem_all (m : AddressingMode) : m ∈ all := by
  cases m <;> decide

def operandSize : AddressingMode → Nat
  | .implied => 0
  | .absolute | .absoluteX | .absoluteY | .indirect => 2
  | _ => 1

def size (m : AddressingMode) : Nat :=
  m.operandSize + 1

theorem operandSize_le (m : AddressingMode) : m.operandSize ≤ 2 := by
  cases m <;> decide

theorem size_pos (m : AddressingMode) : 0 < m.size :=
  Nat.succ_pos _

theorem size_le (m : AddressingMode) : m.size ≤ 3 :=
  Nat.succ_le_succ m.operandSize_le

def title : AddressingMode → String
  | .implied => "Implied"
  | .immediate => "Immediate"
  | .zeroPage => "ZeroPage"
  | .zeroPageX => "ZeroPageX"
  | .zeroPageY => "ZeroPageY"
  | .absolute => "Absolute"
  | .absoluteX => "AbsoluteX"
  | .absoluteY => "AbsoluteY"
  | .indirect => "Indirect"
  | .indirectX => "IndirectX"
  | .indirectY => "IndirectY"
  | .relative => "Relative"

def ending : AddressingMode → String
  | .implied | .relative => ""
  | .immediate => "_IMM"
  | .zeroPage => "_ZP"
  | .zeroPageX => "_ZP_X"
  | .zeroPageY => "_ZP_Y"
  | .absolute => "_ABS"
  | .absoluteX => "_ABS_X"
  | .absoluteY => "_ABS_Y"
  | .indirect => "_IND"
  | .indirectX => "_IND_X"
  | .indirectY => "_IND_Y"

end AddressingMode

end M6502
