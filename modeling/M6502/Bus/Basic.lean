import M6502.Text.Numeral
import M6502.Word

/-!
# The bus

A processor sees memory as a bus: reads answer a byte, writes may be
refused. A read may leave a trace on the bus, and a refused write may have
changed something before it was refused, so both give the bus back.
-/

set_option autoImplicit false

namespace M6502

open Text

inductive BusError where
  | unmappedWrite (addr : UInt16) (value : UInt8)
  | readOnly (offset : UInt16) (value : UInt8)
  | outsideDevice (offset : UInt16) (size : Nat)
  | unknownDevice (device : Nat)
  deriving DecidableEq, Repr

def BusError.message : BusError → String
  | .unmappedWrite addr value =>
    "write of " ++ markedHex 2 value.toNat ++ " to unmapped address " ++ markedHex 4 addr.toNat
  | .readOnly offset value =>
    "write of " ++ markedHex 2 value.toNat ++ " to read-only offset " ++ markedHex 4 offset.toNat
  | .outsideDevice offset size =>
    "offset " ++ markedHex 4 offset.toNat ++ " outside device of " ++ toString size ++ " bytes"
  | .unknownDevice device =>
    "no device with id " ++ toString device

class Bus (β : Type) where
  read : UInt16 → β → UInt8 × β
  write : UInt16 → UInt8 → β → Except BusError Unit × β

def Bus.readWord {β : Type} [Bus β] (addr : UInt16) (bus : β) : UInt16 × β :=
  let (lo, bus) := Bus.read addr bus
  let (hi, bus) := Bus.read (addr + 1) bus
  (word lo hi, bus)

end M6502
