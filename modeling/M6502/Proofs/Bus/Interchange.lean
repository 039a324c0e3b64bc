import M6502.Proofs.Bus.Mapped
import M6502.Proofs.Processor.Lockstep

/-!
# Flat memory and a RAM of its own

Flat memory and a bus with nothing but one RAM at the same place answer every
request alike: the binding covers an address exactly when there is a cell
behind it, and leads to that cell. No run can tell which of them it is on.
-/

set_option autoImplicit false

namespace M6502

namespace FlatMemory

def binding (mem : FlatMemory) : Binding :=
  ⟨0, mem.base, min (mem.base.toNat + mem.cells.size) 0x10000, mem.base⟩

theorem covers_binding {mem : FlatMemory} {addr : UInt16} :
    mem.binding.covers addr = true ↔
      mem.base ≤ addr ∧ addr.toNat - mem.base.toNat < mem.cells.size := by
  have haddr := addr.toNat_lt
  have hle : mem.base ≤ addr ↔ mem.base.toNat ≤ addr.toNat := UInt16.le_iff_toNat_le
  rw [Binding.covers, Bool.and_eq_true, decide_eq_true_eq, decide_eq_true_eq, hle]
  show mem.base.toNat ≤ addr.toNat ∧ addr.toNat < min (mem.base.toNat + mem.cells.size) 0x10000 ↔ _
  omega

theorem index?_eq_within (mem : FlatMemory) (addr : UInt16) :
    mem.index? addr =
      if mem.binding.covers addr = true then some (mem.binding.within addr).toNat else none := by
  by_cases hcovers : mem.binding.covers addr = true
  · have hcell := covers_binding.1 hcovers
    rw [index?, if_pos hcell, if_pos hcovers, Binding.within]
    exact congrArg some (UInt16.toNat_sub_of_le _ _ hcell.1).symm
  · rw [index?, if_neg (mt covers_binding.2 hcovers), if_neg hcovers]

end FlatMemory

structure Mirrors (observer : Option Observer) (mem : FlatMemory) (bus : MappedBus) : Prop where
  device : bus.device? 0 = some ⟨mem.cells, .ram observer⟩
  bindings : bus.bindings = [mem.binding]

namespace Mirrors

variable {observer : Option Observer} {mem : FlatMemory} {bus : MappedBus}

theorem note (h : Mirrors observer mem bus) (id : Nat) (kind : AccessKind) (offset : UInt16)
    (value : UInt8) : Mirrors observer mem (bus.note id kind offset value) := by
  constructor
  · rw [MappedBus.device?, MappedBus.devices_note]
    exact h.device
  · rw [MappedBus.bindings_note]
    exact h.bindings

theorem poke (h : Mirrors observer mem bus) (offset : UInt16) (value : UInt8) :
    Mirrors observer { mem with cells := mem.cells.setIfInBounds offset.toNat value }
      (bus.poke 0 offset value) := by
  constructor
  · rw [MappedBus.device?_poke, if_pos rfl, h.device]
    rfl
  · rw [FlatMemory.binding, Array.size_setIfInBounds]
    exact h.bindings

theorem read (h : Mirrors observer mem bus) (addr : UInt16) :
    (Bus.read addr mem).1 = (Bus.read addr bus).1 ∧
      Mirrors observer (Bus.read addr mem).2 (Bus.read addr bus).2 := by
  rw [FlatMemory.read_eq, MappedBus.read_match, MappedBus.reader?, h.bindings, List.find?_singleton,
    FlatMemory.get, mem.index?_eq_within]
  by_cases hcovers : mem.binding.covers addr = true
  · rw [if_pos hcovers, if_pos hcovers]
    refine ⟨?_, h.note ..⟩
    show mem.cells.getD (mem.binding.within addr).toNat 0 = bus.peek 0 (mem.binding.within addr)
    rw [MappedBus.peek, h.device]
    rfl
  · rw [if_neg hcovers, if_neg hcovers]
    exact ⟨rfl, h⟩

theorem writers (h : Mirrors observer mem bus) (addr : UInt16) :
    bus.writers addr = if mem.binding.covers addr = true then [mem.binding] else [] := by
  rw [MappedBus.writers, h.bindings, List.filter_cons, List.filter_nil]

theorem writeThrough (h : Mirrors observer mem bus) {addr : UInt16}
    (hcovers : mem.binding.covers addr = true) (value : UInt8) :
    MappedBus.writeThrough addr value [mem.binding] bus = (.ok (),
      (bus.poke 0 (mem.binding.within addr) value).note 0 .write (mem.binding.within addr)
        value) := by
  obtain ⟨hle, hlt⟩ := FlatMemory.covers_binding.1 hcovers
  rw [← UInt16.toNat_sub_of_le _ _ hle] at hlt
  have haccepts : bus.refusal? mem.binding.device (mem.binding.within addr) value = none := by
    rw [MappedBus.refusal?, show bus.device? mem.binding.device = _ from h.device]
    exact if_pos hlt
  rw [MappedBus.writeThrough, MappedBus.writeDevice, haccepts]
  rfl

theorem write (h : Mirrors observer mem bus) (addr : UInt16) (value : UInt8) :
    (Bus.write addr value mem).1 = (Bus.write addr value bus).1 ∧
      Mirrors observer (Bus.write addr value mem).2 (Bus.write addr value bus).2 := by
  rw [MappedBus.write_match, h.writers]
  simp only [Bus.write, mem.index?_eq_within]
  by_cases hcovers : mem.binding.covers addr = true
  · rw [if_pos hcovers, if_pos hcovers]
    simp only [h.writeThrough hcovers]
    exact ⟨trivial, (h.poke ..).note ..⟩
  · rw [if_neg hcovers, if_neg hcovers]
    exact ⟨rfl, h⟩

theorem lockstep (observer : Option Observer) : Bus.Lockstep (Mirrors observer) where
  read h := h.read
  write h := h.write

theorem map (observer : Option Observer) (cells : Array UInt8) (base : UInt16) :
    Mirrors observer ⟨cells, base⟩ (MappedBus.empty.map ⟨cells, .ram observer⟩ base) :=
  ⟨rfl, rfl⟩

end Mirrors

/-- Flat memory and a bus with one RAM of the same contents, mapped at the same base, cannot be
told apart: every step of a run has the same answer on both and leaves the same registers and the
same bytes. -/
theorem flat_mapped_interchange (cells : Array UInt8) (base : UInt16) (observer : Option Observer)
    (regs : Registers) (n : Nat) :
    let flat : Machine FlatMemory := ⟨regs, ⟨cells, base⟩⟩
    let mapped : Machine MappedBus := ⟨regs, MappedBus.empty.map ⟨cells, .ram observer⟩ base⟩
    flat.answer n = mapped.answer n ∧ (flat.after n).regs = (mapped.after n).regs ∧
      (mapped.after n).bus.device? 0 = some ⟨(flat.after n).bus.cells, .ram observer⟩ := by
  intro flat mapped
  have hlock := Mirrors.lockstep observer
  obtain ⟨hregs, hbus⟩ := after_together (m := flat) (k := mapped) hlock n rfl
    (Mirrors.map observer cells base)
  obtain ⟨hanswer, -, -⟩ := advance_together hlock hregs hbus
  exact ⟨hanswer, hregs, hbus.device⟩

end M6502
