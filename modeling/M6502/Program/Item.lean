import M6502.InstructionSet.Encoding
import M6502.Word

/-!
# The items of a program

A program is a list of instructions, data and seeks. Labels stand in items
by name and are resolved when the program is laid out, so the length of an
item never depends on where a label ends up.
-/

set_option autoImplicit false

namespace M6502

inductive Operand where
  | none
  | value (v : UInt16)
  | label (name : String)
  /-- The distance to a label from behind the instruction. -/
  | displacement (name : String)
  deriving DecidableEq, Repr

inductive Datum where
  | bytes (bs : List UInt8)
  | label (name : String)
  | displacement (name : String)
  deriving DecidableEq, Repr

structure Instruction where
  encoding : Encoding
  operand : Operand
  deriving DecidableEq

inductive Item where
  | instruction (i : Instruction)
  | data (d : Datum)
  | seek (position : Nat)
  deriving DecidableEq

def Instruction.size (i : Instruction) : Nat :=
  i.encoding.size

theorem Instruction.size_pos (i : Instruction) : 0 < i.size :=
  i.encoding.mode.size_pos

def Datum.length : Datum → Nat
  | .bytes bs => bs.length
  | .label _ => 2
  | .displacement _ => 1

namespace Item

def length : Item → Nat
  | .instruction i => i.size
  | .data d => d.length
  | .seek _ => 0

def advance (position : Nat) : Item → Nat
  | .seek target => target
  | item => position + item.length

end Item

end M6502
