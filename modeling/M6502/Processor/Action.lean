import M6502.InstructionSet.Mnemonic
import M6502.Processor.Arithmetic
import M6502.Processor.Machine

/-!
# Actions

What each operation does, in a form shared by all its addressing modes.
Fifty-six mnemonics come down to a few kinds of action; the mode is handed
in, and an action that has no operand does not look at it.
-/

set_option autoImplicit false

namespace M6502

inductive Action where
  | load (r : Register)
  | store (r : Register)
  | transfer (src dst : Register)
  | setStack
  | count (r : Register) (up : Bool)
  | modify (f : Modification)
  | combine (f : Combination)
  | add
  | subtract
  | compare (r : Register)
  | testBits
  | branch (f : Flag) (on : Bool)
  | jump
  | call
  | returnFromCall
  | returnFromInterrupt
  | pushAccumulator
  | pullAccumulator
  | pushStatus
  | pullStatus
  | setFlag (f : Flag) (on : Bool)
  | halt
  | idle
  deriving DecidableEq, Repr

def Mnemonic.action : Mnemonic → Action
  | .adc => .add
  | .and => .combine .conjunction
  | .asl => .modify .shiftLeft
  | .bcc => .branch .carry false
  | .bcs => .branch .carry true
  | .beq => .branch .zero true
  | .bit => .testBits
  | .bmi => .branch .negative true
  | .bne => .branch .zero false
  | .bpl => .branch .negative false
  | .brk => .halt
  | .bvc => .branch .overflow false
  | .bvs => .branch .overflow true
  | .clc => .setFlag .carry false
  | .cld => .setFlag .decimal false
  | .cli => .setFlag .interruptDisable false
  | .clv => .setFlag .overflow false
  | .cmp => .compare .a
  | .cpx => .compare .x
  | .cpy => .compare .y
  | .dec => .modify .decrement
  | .dex => .count .x false
  | .dey => .count .y false
  | .eor => .combine .exclusion
  | .inc => .modify .increment
  | .inx => .count .x true
  | .iny => .count .y true
  | .jmp => .jump
  | .jsr => .call
  | .lda => .load .a
  | .ldx => .load .x
  | .ldy => .load .y
  | .lsr => .modify .shiftRight
  | .nop => .idle
  | .ora => .combine .disjunction
  | .pha => .pushAccumulator
  | .php => .pushStatus
  | .pla => .pullAccumulator
  | .plp => .pullStatus
  | .rol => .modify .rotateLeft
  | .ror => .modify .rotateRight
  | .rti => .returnFromInterrupt
  | .rts => .returnFromCall
  | .sbc => .subtract
  | .sec => .setFlag .carry true
  | .sed => .setFlag .decimal true
  | .sei => .setFlag .interruptDisable true
  | .sta => .store .a
  | .stx => .store .x
  | .sty => .store .y
  | .tax => .transfer .a .x
  | .tay => .transfer .a .y
  | .tsx => .transfer .sp .x
  | .txa => .transfer .x .a
  | .txs => .setStack
  | .tya => .transfer .y .a

namespace Registers

def put (r : Registers) (dst : Register) (v : UInt8) : Registers :=
  (r.set dst v).setResult v

def modified (r : Registers) (f : Modification) (v : UInt8) : UInt8 × Registers :=
  let (v, carry) := f.apply r.status.carry v
  (v, (r.setFlag .carry carry).setResult v)

def added (r : Registers) (v : UInt8) : Registers :=
  let sum := addWithCarry r.a v r.status.carry
  ((r.setFlag .carry sum.carry).setFlag .overflow sum.overflow).put .a sum.value

def compared (r : Registers) (reg : Register) (v : UInt8) : Registers :=
  let difference := r.get reg - v
  ((r.setSigned difference.toUInt16).setFlag .carry (v ≤ r.get reg)).setResult difference

def bitsTested (r : Registers) (v : UInt8) : Registers :=
  ((r.setFlag .zero (r.a &&& v == 0)).setFlag .negative (isNegative v)).setFlag .overflow
    (v &&& 0x40 != 0)

end Registers

namespace Action

open Exec

variable {β : Type} [Bus β]

def pullAddress : Exec β UInt16 := do
  let lo ← pull
  update (·.setAddressLow lo)
  let hi ← pull
  update (·.setAddressHigh hi)
  return (← registers).ad

def run (mode : AddressingMode) : Action → Exec β Unit
  | .load r => do
    let v ← operand mode
    update (·.put r v)
  | .store r => do
    let addr ← address mode
    write addr ((← registers).get r)
  | .transfer src dst => update fun r => r.put dst (r.get src)
  | .setStack => update fun r => { r with sp := r.x }
  | .count reg up => update fun r => r.put reg (if up then r.get reg + 1 else r.get reg - 1)
  | .modify f =>
    if mode = .implied then
      update fun r => let (v, r) := r.modified f r.a; { r with a := v }
    else do
      let addr ← address mode
      let old ← read addr
      let (v, regs) := (← registers).modified f old
      update fun _ => regs
      write addr v
  | .combine f => do
    let v ← operand mode
    update fun r => r.put .a (f.apply r.a v)
  | .add => do
    let v ← operand mode
    update (·.added v)
  | .subtract => do
    let v ← operand mode
    update (·.added (~~~v))
  | .compare reg => do
    let v ← operand mode
    update (·.compared reg v)
  | .testBits => do
    let v ← operand mode
    update (·.bitsTested v)
  | .branch f on => do
    let offset ← fetch
    update (·.setSigned offset.toUInt16)
    update fun r => if r.flag f == on then { r with pc := r.pc + signExtend offset } else r
  | .jump => do
    let addr ← address mode
    update fun r => { r with pc := addr }
  | .call => do
    let addr ← address mode
    let back := (← registers).pc - 1
    push (highByte back)
    push (lowByte back)
    update fun r => { r with pc := addr }
  | .returnFromCall => do
    let addr ← pullAddress
    update fun r => { r with pc := addr + 1 }
  | .returnFromInterrupt => do
    let p ← pull
    update fun r => { r with status := .pulled p }
    let addr ← pullAddress
    update fun r => { r with pc := addr }
  | .pushAccumulator => do
    push (← registers).a
  | .pullAccumulator => do
    let v ← pull
    update (·.put .a v)
  | .pushStatus => do
    push ((← registers).status.pushed true)
  | .pullStatus => do
    let p ← pull
    update fun r => { r with status := .pulled p }
  | .setFlag f on => update (·.setFlag f on)
  | .halt => update fun r => { r.setFlag .brk true with halted := true }
  | .idle => return

end Action

end M6502
