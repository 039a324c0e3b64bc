import M6502.InstructionSet.Encoding
import M6502.Processor.Action

/-!
# One instruction

A step reads the opcode at the program counter, moves past it and runs the
action of its encoding. An undocumented opcode traps before anything but
the read has happened.
-/

set_option autoImplicit false

namespace M6502

open Exec

variable {β : Type} [Bus β]

def Mnemonic.perform (m : Mnemonic) (mode : AddressingMode) : Exec β Unit :=
  m.action.run mode

def step : Exec β Encoding := do
  let pc := (← registers).pc
  let opcode ← read pc
  match Encoding.ofOpcode? opcode with
  | none => throw (.illegalOpcode pc opcode)
  | some e =>
    update fun r => { r with pc := pc + 1, halted := false }
    e.mnemonic.perform e.mode
    return e

def enterInterrupt (vector : UInt16) : Exec β Unit := do
  let r ← registers
  push (highByte r.pc)
  push (lowByte r.pc)
  push (r.status.pushed false)
  update fun r => { r.setFlag .interruptDisable true with pc := vector }

end M6502
