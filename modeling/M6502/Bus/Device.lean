import M6502.Bus.Basic

/-!
# Devices

What can sit behind a stretch of the bus: storage that only reads, and
storage that also takes writes and is cleared by a reset. Offsets count
from the start of the device. A RAM may be observed; an observer that
records has each access noted under its tag.
-/

set_option autoImplicit false

namespace M6502

inductive Observer where
  | silent
  | recording (tag : String)
  deriving DecidableEq, Repr

inductive DeviceKind where
  | rom
  | ram (observer : Option Observer)
  deriving DecidableEq, Repr

structure Device where
  contents : Array UInt8
  kind : DeviceKind
  deriving DecidableEq, Repr

namespace Device

def defaultRamSize : Nat := 0x2000

def rom (contents : Array UInt8) : Device :=
  ⟨contents, .rom⟩

def ram (size : Nat) (observer : Option Observer) : Device :=
  ⟨Array.replicate size 0, .ram observer⟩

def size (d : Device) : Nat :=
  d.contents.size

def get (d : Device) (offset : UInt16) : UInt8 :=
  d.contents.getD offset.toNat 0

def refusal? (d : Device) (offset : UInt16) (value : UInt8) : Option BusError :=
  match d.kind with
  | .rom => some (.readOnly offset value)
  | .ram _ => if offset.toNat < d.size then none else some (.outsideDevice offset d.size)

def set (d : Device) (offset : UInt16) (value : UInt8) : Device :=
  { d with contents := d.contents.setIfInBounds offset.toNat value }

def reset (d : Device) : Device :=
  match d.kind with
  | .rom => d
  | .ram _ => { d with contents := Array.replicate d.size 0 }

def tag? (d : Device) : Option String :=
  match d.kind with
  | .ram (some (.recording tag)) => some tag
  | _ => none

def describe (d : Device) : String :=
  let observed := match d.kind with
    | .ram (some _) => "true"
    | _ => "false"
  "Ram \x7b len: " ++ toString d.size ++ ", observed: " ++ observed ++ " \x7d"

end Device

end M6502
