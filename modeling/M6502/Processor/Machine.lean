import M6502.Bus.Basic
import M6502.InstructionSet.AddressingMode
import M6502.Processor.Registers

/-!
# The machine and what instructions are made of

A machine is the registers together with a bus. Instructions are built from
the few steps of this module: reading, writing and fetching bytes, pushing
and pulling, and finding the effective address of an operand.
-/

set_option autoImplicit false

namespace M6502

open Text

structure Machine (β : Type) where
  regs : Registers
  bus : β

inductive Trap where
  | illegalOpcode (pc : UInt16) (opcode : UInt8)
  | bus (addr : UInt16) (cause : BusError)
  deriving DecidableEq, Repr

def Trap.message : Trap → String
  | .illegalOpcode pc opcode =>
    "illegal opcode " ++ markedHex 2 opcode.toNat ++ " at " ++ markedHex 4 pc.toNat
  | .bus addr cause =>
    "bus error at " ++ markedHex 4 addr.toNat ++ ": " ++ cause.message

/-- What happens to a machine until it is done or trapped. A trap keeps what was changed
before it. -/
abbrev Exec (β : Type) := EStateM Trap (Machine β)

def stackPage : UInt16 := 0x0100

def stackCell (sp : UInt8) : UInt16 :=
  stackPage + sp.toUInt16

namespace Exec

variable {β : Type}

def registers : Exec β Registers := fun m =>
  .ok m.regs m

def update (f : Registers → Registers) : Exec β Unit := fun
  | ⟨regs, bus⟩ => .ok () ⟨f regs, bus⟩

variable [Bus β]

def read (addr : UInt16) : Exec β UInt8 := fun
  | ⟨regs, bus⟩ =>
    let (value, bus) := Bus.read addr bus
    .ok value ⟨regs, bus⟩

def write (addr : UInt16) (value : UInt8) : Exec β Unit := fun
  | ⟨regs, bus⟩ =>
    match Bus.write addr value bus with
    | (.ok _, bus) => .ok () ⟨regs, bus⟩
    | (.error cause, bus) => .error (.bus addr cause) ⟨regs, bus⟩

def readPair (lo hi : UInt16) : Exec β UInt16 := do
  let l ← read lo
  let h ← read hi
  return word l h

def fetch : Exec β UInt8 := do
  let v ← read (← registers).pc
  update fun r => { r with pc := r.pc + 1 }
  return v

def fetchWord : Exec β UInt16 := do
  let lo ← fetch
  let hi ← fetch
  return word lo hi

def push (v : UInt8) : Exec β Unit := do
  write (stackCell (← registers).sp) v
  update fun r => { r with sp := r.sp - 1 }

def pull : Exec β UInt8 := do
  update fun r => { r with sp := r.sp + 1 }
  read (stackCell (← registers).sp)

def readPointer (zp : UInt8) : Exec β UInt16 :=
  readPair zp.toUInt16 (zp + 1).toUInt16

def target : AddressingMode → Exec β UInt16
  | .implied | .relative => return (← registers).pc
  | .immediate => do
    let pc := (← registers).pc
    update fun r => { r with pc := r.pc + 1 }
    return pc
  | .zeroPage => return (← fetch).toUInt16
  | .zeroPageX => do
    let zp ← fetch
    return (zp + (← registers).x).toUInt16
  | .zeroPageY => do
    let zp ← fetch
    return (zp + (← registers).y).toUInt16
  | .absolute => fetchWord
  | .absoluteX => do
    let base ← fetchWord
    return base + (← registers).x.toUInt16
  | .absoluteY => do
    let base ← fetchWord
    return base + (← registers).y.toUInt16
  | .indirect => do
    let pointer ← fetchWord
    readPair pointer (word (lowByte pointer + 1) (highByte pointer))
  | .indirectX => do
    let zp ← fetch
    readPointer (zp + (← registers).x)
  | .indirectY => do
    let zp ← fetch
    let base ← readPointer zp
    return base + (← registers).y.toUInt16

def address (mode : AddressingMode) : Exec β UInt16 := do
  let addr ← target mode
  update fun r => { r with ad := addr }
  return addr

def operand (mode : AddressingMode) : Exec β UInt8 := do
  read (← address mode)

end Exec

end M6502
