import M6502.Bus.Basic

/-!
# A bus that keeps its writes

Wraps a bus and keeps the writes that it accepted, the latest first.
-/

set_option autoImplicit false

namespace M6502

structure Recorded (β : Type) where
  inner : β
  writes : List (UInt16 × UInt8)

namespace Recorded

variable {β : Type}

def ofBus (bus : β) : Recorded β :=
  ⟨bus, []⟩

instance [Bus β] : Bus (Recorded β) where
  read addr := fun ⟨inner, writes⟩ =>
    let (value, inner) := Bus.read addr inner
    (value, ⟨inner, writes⟩)
  write addr value := fun ⟨inner, writes⟩ =>
    match Bus.write addr value inner with
    | (.ok _, inner) => (.ok (), ⟨inner, (addr, value) :: writes⟩)
    | (.error e, inner) => (.error e, ⟨inner, writes⟩)

def history (bus : Recorded β) : List (UInt16 × UInt8) :=
  bus.writes.reverse

end Recorded

end M6502
