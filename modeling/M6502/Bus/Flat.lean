import M6502.Bus.Basic

/-!
# Flat memory

Memory cells from a base address on. Outside of them reads answer zero and
writes are refused.
-/

set_option autoImplicit false

namespace M6502

structure FlatMemory where
  cells : Array UInt8
  base : UInt16
  deriving DecidableEq, Repr

namespace FlatMemory

def cleared (size : Nat) (base : UInt16) : FlatMemory :=
  ⟨Array.replicate size 0, base⟩

def index? (mem : FlatMemory) (addr : UInt16) : Option Nat :=
  if mem.base ≤ addr ∧ addr.toNat - mem.base.toNat < mem.cells.size then
    some (addr.toNat - mem.base.toNat)
  else none

def get (mem : FlatMemory) (addr : UInt16) : UInt8 :=
  match mem.index? addr with
  | some i => mem.cells.getD i 0
  | none => 0

instance : Bus FlatMemory where
  read addr mem := (mem.get addr, mem)
  write addr value mem :=
    match mem.index? addr with
    | some i => (.ok (), { mem with cells := mem.cells.setIfInBounds i value })
    | none => (.error (.unmappedWrite addr value), mem)

/-- Copy `bytes` in from `addr` on. The distance to the base is taken modulo the address
space, and what does not fit is left out. -/
def load (mem : FlatMemory) (addr : UInt16) (bytes : Array UInt8) : FlatMemory :=
  { mem with cells := overwrite mem.cells (addr - mem.base).toNat bytes.toList }

@[simp]
theorem read_eq (mem : FlatMemory) (addr : UInt16) : Bus.read addr mem = (mem.get addr, mem) :=
  rfl

theorem size_cells_load (mem : FlatMemory) (addr : UInt16) (bytes : Array UInt8) :
    (mem.load addr bytes).cells.size = mem.cells.size :=
  size_overwrite _ _ _

end FlatMemory

end M6502
