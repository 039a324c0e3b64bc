import M6502.Bus.Mapped
import M6502.Computer.Settings
import M6502.Processor.Step
import Std.Data.TreeMap

/-!
# Computers

A processor on a bus of devices. A reset takes the three vectors from the
bus and starts at the reset vector; a run goes on until an instruction
halts, traps, or the limit is reached.
-/

set_option autoImplicit false

namespace M6502

def nmiVector : UInt16 := 0xFFFA
def resetVector : UInt16 := 0xFFFC
def irqVector : UInt16 := 0xFFFE

structure Vectors where
  nmi : UInt16
  reset : UInt16
  irq : UInt16
  deriving DecidableEq, Repr

structure Heat where
  count : Nat
  encoding : Encoding
  deriving DecidableEq

inductive StopReason where
  | halted | limit
  deriving DecidableEq, Repr

structure Computer extends Machine MappedBus where
  settings : Settings
  vectors : Vectors
  cycles : Nat
  heat : Std.TreeMap UInt16 Heat

namespace Computer

def withBus (bus : MappedBus) (settings : Settings) : Computer where
  regs := .initial
  bus := bus
  settings := settings
  vectors := ⟨0, 0, 0⟩
  cycles := 0
  heat := ∅

def new (settings : Settings) : Computer :=
  withBus .empty settings

def reset (c : Computer) : Computer :=
  let (nmi, bus) := Bus.readWord nmiVector c.bus
  let (start, bus) := Bus.readWord resetVector bus
  let (irq, bus) := Bus.readWord irqVector bus
  { c with
    bus := bus
    regs := .atReset start
    vectors := ⟨nmi, start, irq⟩
    cycles := 0
    heat := ∅ }

def load (c : Computer) (image : Array UInt8) (offset : UInt16) : Computer :=
  reset { c with bus := c.bus.map (.rom image) offset }

def halt (c : Computer) : Computer :=
  { c with regs := { c.regs with halted := true } }

def warm (heat : Std.TreeMap UInt16 Heat) (pc : UInt16) (e : Encoding) : Std.TreeMap UInt16 Heat :=
  heat.alter pc fun
    | some h => some { h with count := h.count + 1 }
    | none => some ⟨1, e⟩

def tally (c : Computer) (pc : UInt16) (e : Encoding) : Computer :=
  { c with
    cycles := c.cycles + 1
    heat := if c.settings.count then warm c.heat pc e else c.heat }

def act {α : Type} (c : Computer) (x : Exec MappedBus α) : Except Trap α × Computer :=
  match c with
  | ⟨m, settings, vectors, cycles, heat⟩ =>
    match x m with
    | .ok v m => (.ok v, ⟨m, settings, vectors, cycles, heat⟩)
    | .error t m => (.error t, ⟨m, settings, vectors, cycles, heat⟩)

def locatedStep : Exec MappedBus (UInt16 × Encoding) := do
  let pc := (← Exec.registers).pc
  return (pc, ← M6502.step)

def step (c : Computer) : Except Trap Encoding × Computer :=
  match c.act locatedStep with
  | (.ok (pc, e), c) => (.ok e, c.tally pc e)
  | (.error t, c) => (.error t, c.halt)

def runFor : Nat → Computer → Except Trap StopReason × Computer
  | 0, c => (.ok .limit, c.halt)
  | n + 1, c =>
    match c.step with
    | (.error t, c) => (.error t, c)
    | (.ok _, c) => if c.regs.halted then (.ok .halted, c) else runFor n c

def run (c : Computer) : Except Trap StopReason × Computer :=
  runFor c.settings.limit c

def interrupt (c : Computer) : Except Trap StopReason × Computer :=
  match c.act (enterInterrupt c.vectors.nmi) with
  | (.ok _, c) => c.run
  | (.error t, c) => (.error t, c)

def heatList (c : Computer) : List (UInt16 × Heat) :=
  c.heat.toList

end Computer

end M6502
