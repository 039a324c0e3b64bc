import M6502.Bus.Device

/-!
# A bus of devices

Devices are bound to stretches of the address space, one device to as many
as it takes. A read goes to the first binding that covers the address. A
write goes to all of them in turn and stops at the first refusal, with the
devices before it already written.
-/

set_option autoImplicit false

namespace M6502

/-- A device behind the addresses from `start` up to and without `stop`. The offset is taken
from an address before it reaches the device. -/
structure Binding where
  device : Nat
  start : UInt16
  stop : Nat
  offset : UInt16
  deriving DecidableEq, Repr

namespace Binding

def covers (b : Binding) (addr : UInt16) : Bool :=
  b.start.toNat ≤ addr.toNat && addr.toNat < b.stop

def within (b : Binding) (addr : UInt16) : UInt16 :=
  addr - b.offset

end Binding

inductive AccessKind where
  | read | write
  deriving DecidableEq, Repr

structure Access where
  kind : AccessKind
  tag : String
  offset : UInt16
  value : UInt8
  deriving DecidableEq, Repr

structure MappedBus where
  devices : Array Device
  bindings : List Binding
  log : Array Access
  attached : ∀ b ∈ bindings, b.device < devices.size

namespace MappedBus

def empty : MappedBus :=
  ⟨#[], [], #[], by simp⟩

def nextId (bus : MappedBus) : Nat :=
  bus.devices.size

def attach (bus : MappedBus) (d : Device) : MappedBus :=
  { bus with
    devices := bus.devices.push d
    attached := fun b h => by
      have := bus.attached b h
      simp only [Array.size_push]
      omega }

def bind (bus : MappedBus) (b : Binding) (h : b.device < bus.devices.size) : MappedBus :=
  { bus with
    bindings := bus.bindings ++ [b]
    attached := fun c hc => by
      rcases List.mem_append.1 hc with hc | hc
      · exact bus.attached c hc
      · rw [List.mem_singleton.1 hc]
        exact h }

def connect (bus : MappedBus) (b : Binding) : Except BusError MappedBus :=
  if h : b.device < bus.devices.size then .ok (bus.bind b h) else .error (.unknownDevice b.device)

def map (bus : MappedBus) (d : Device) (start : UInt16) : MappedBus :=
  (bus.attach d).bind ⟨bus.nextId, start, min (start.toNat + d.size) 0x10000, start⟩
    (by simp [attach, nextId])

/-- Map a cartridge image at 0x8000. One bank of 16 KiB shows a second time at 0xC000. -/
def mapCartridge (bus : MappedBus) (image : Array UInt8) : MappedBus :=
  let mapped := bus.map (.rom image) 0x8000
  if image.size = 0x4000 then
    mapped.bind ⟨bus.nextId, 0xC000, 0x10000, 0xC000⟩ (by simp [mapped, map, bind, attach, nextId])
  else mapped

def device? (bus : MappedBus) (id : Nat) : Option Device :=
  bus.devices[id]?

def note (bus : MappedBus) (id : Nat) (kind : AccessKind) (offset : UInt16) (value : UInt8) :
    MappedBus :=
  match (bus.device? id).bind Device.tag? with
  | some tag => { bus with log := bus.log.push ⟨kind, tag, offset, value⟩ }
  | none => bus

def peek (bus : MappedBus) (id : Nat) (offset : UInt16) : UInt8 :=
  match bus.device? id with
  | some d => d.get offset
  | none => 0

def readDevice (bus : MappedBus) (id : Nat) (offset : UInt16) : UInt8 × MappedBus :=
  let value := bus.peek id offset
  (value, bus.note id .read offset value)

def poke (bus : MappedBus) (id : Nat) (offset : UInt16) (value : UInt8) : MappedBus :=
  { bus with
    devices := bus.devices.modify id fun d => d.set offset value
    attached := by simpa using bus.attached }

def refusal? (bus : MappedBus) (id : Nat) (offset : UInt16) (value : UInt8) : Option BusError :=
  match bus.device? id with
  | some d => d.refusal? offset value
  | none => some (.unknownDevice id)

def writeDevice (bus : MappedBus) (id : Nat) (offset : UInt16) (value : UInt8) :
    Except BusError Unit × MappedBus :=
  match bus.refusal? id offset value with
  | some e => (.error e, bus)
  | none => (.ok (), (bus.poke id offset value).note id .write offset value)

def writeThrough (addr : UInt16) (value : UInt8) :
    List Binding → MappedBus → Except BusError Unit × MappedBus
  | [], bus => (.ok (), bus)
  | b :: bindings, bus =>
    match bus.writeDevice b.device (b.within addr) value with
    | (.ok _, bus) => writeThrough addr value bindings bus
    | (.error e, bus) => (.error e, bus)

def reader? (bus : MappedBus) (addr : UInt16) : Option Binding :=
  bus.bindings.find? (·.covers addr)

def writers (bus : MappedBus) (addr : UInt16) : List Binding :=
  bus.bindings.filter (·.covers addr)

instance : Bus MappedBus where
  read addr bus :=
    match bus.reader? addr with
    | some b => bus.readDevice b.device (b.within addr)
    | none => (0, bus)
  write addr value bus :=
    match bus.writers addr with
    | [] => (.error (.unmappedWrite addr value), bus)
    | bindings => writeThrough addr value bindings bus

def resetDevice (bus : MappedBus) (id : Nat) : MappedBus :=
  { bus with
    devices := bus.devices.modify id Device.reset
    attached := by simpa using bus.attached }

def reset (bus : MappedBus) : MappedBus :=
  { bus with
    devices := bus.devices.map Device.reset
    attached := by simpa using bus.attached }

def clearLog (bus : MappedBus) : MappedBus :=
  { bus with log := #[] }

end MappedBus

end M6502
