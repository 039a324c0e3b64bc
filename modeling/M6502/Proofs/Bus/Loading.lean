import M6502.Computer.Basic
import M6502.Proofs.Bus.Mapped
import M6502.Proofs.Program.TwoPass

/-!
# Loaded images

An image that was loaded shows at the addresses from its origin on: in flat
memory that has room for it, and on the bus of a computer where nothing else
was bound before.
-/

set_option autoImplicit false

namespace M6502

namespace FlatMemory

theorem index?_load (mem : FlatMemory) (addr : UInt16) (bytes : Array UInt8) :
    (mem.load addr bytes).index? = mem.index? := by
  funext other
  rw [index?, size_cells_load]
  rfl

/-- A cell once bytes were loaded: they begin as far behind the base as `addr` is, in the wrapping
arithmetic of addresses. -/
theorem get_load {mem : FlatMemory} {addr other : UInt16} {bytes : Array UInt8} {i : Nat}
    (hi : mem.index? other = some i) :
    (mem.load addr bytes).get other =
      if (addr - mem.base).toNat ≤ i ∧ i < (addr - mem.base).toNat + bytes.size then
        bytes.getD (i - (addr - mem.base).toNat) 0
      else mem.get other := by
  have hlt := (index?_eq_some.1 hi).2
  rw [get_of_index? ((congrFun (index?_load ..) other).trans hi), get_of_index? hi, load]
  simp only [Array.getD_eq_getD_getElem?, getElem?_overwrite_of_lt _ _ _ hlt, Array.length_toList,
    Array.getElem?_toList]
  split <;> rfl

theorem shows_load {mem : FlatMemory} {origin : UInt16} {image : Array UInt8}
    (hbase : mem.base ≤ origin)
    (hroom : origin.toNat - mem.base.toNat + image.size ≤ mem.cells.size)
    (hfit : origin.toNat + image.size ≤ 0x10000) :
    Bus.Shows (mem.load origin image) origin image.toList := by
  have hle := UInt16.le_iff_toNat_le.1 hbase
  have hstart : (origin - mem.base).toNat = origin.toNat - mem.base.toNat :=
    UInt16.toNat_sub_of_le _ _ hbase
  rw [Bus.shows_iff]
  intro i hi
  rw [Array.length_toList] at hi
  have hindex : mem.index? (origin + UInt16.ofNat i) =
      some (origin.toNat - mem.base.toNat + i) := by
    rw [index?_eq_some, toNat_add_ofNat (by omega)]
    omega
  rw [peek_eq, get_load hindex, hstart, if_pos (by omega), Nat.add_sub_cancel_left,
    Array.getD_eq_getD_getElem?, Array.getElem?_toList, Array.getElem?_eq_getElem hi]
  rfl

end FlatMemory

namespace MappedBus

theorem reader?_bind (bus : MappedBus) (b : Binding) (h : b.device < bus.devices.size)
    (addr : UInt16) :
    (bus.bind b h).reader? addr =
      (bus.reader? addr).or (if b.covers addr = true then some b else none) := by
  rw [reader?, show (bus.bind b h).bindings = bus.bindings ++ [b] from rfl, List.find?_append,
    List.find?_singleton]
  rfl

theorem reader?_map {bus : MappedBus} {d : Device} {start addr : UInt16}
    (hfree : bus.reader? addr = none) :
    (bus.map d start).reader? addr =
      if start.toNat ≤ addr.toNat ∧ addr.toNat < min (start.toNat + d.size) 0x10000 then
        some ⟨bus.nextId, start, min (start.toNat + d.size) 0x10000, start⟩
      else none := by
  have hbehind : (bus.attach d).reader? addr = none := hfree
  refine (reader?_bind (bus.attach d) _ _ addr).trans ?_
  rw [hbehind, Option.none_or]
  simp only [Binding.covers, Bool.and_eq_true, decide_eq_true_eq]

theorem device?_nextId (bus : MappedBus) (d : Device) :
    (bus.attach d).device? bus.nextId = some d :=
  Array.getElem?_push_size

theorem peek_map_self (bus : MappedBus) (d : Device) (start offset : UInt16) :
    (bus.map d start).peek bus.nextId offset = d.get offset := by
  have hdevice : (bus.map d start).device? bus.nextId = some d := device?_nextId bus d
  rw [peek, hdevice]

/-- Where nothing was bound, a bus shows the device that was mapped there. -/
theorem shows_map {bus : MappedBus} {d : Device} {start : UInt16}
    (hfit : start.toNat + d.size ≤ 0x10000)
    (hfree : ∀ i < d.size, bus.reader? (start + UInt16.ofNat i) = none) :
    Bus.Shows (bus.map d start) start d.contents.toList := by
  rw [Bus.shows_iff]
  intro i hi
  rw [Array.length_toList] at hi
  have hsize : d.size = d.contents.size := rfl
  have hlt : i < d.size := hi
  have haddr : (start + UInt16.ofNat i).toNat = start.toNat + i := toNat_add_ofNat (by omega)
  have hwithin : start + UInt16.ofNat i - start = UInt16.ofNat i := by
    rw [UInt16.add_comm, UInt16.add_sub_cancel]
  have hoffset : (UInt16.ofNat i).toNat = i := by
    rw [UInt16.toNat_ofNat']
    omega
  rw [peek_eq, reader?_map (hfree i hlt), if_pos (by omega)]
  simp only [Binding.within, peek_map_self, hwithin]
  rw [Device.get, hoffset, Array.getD_eq_getD_getElem?, Array.getElem?_toList,
    Array.getElem?_eq_getElem hi]
  rfl

end MappedBus

namespace Computer

theorem same_reset (c : Computer) : Storage.Same c.bus c.reset.bus :=
  ((((((Storage.Same.refl c.bus).read nmiVector).read (nmiVector + 1)).read resetVector).read
    (resetVector + 1)).read irqVector).read (irqVector + 1)

theorem shows_load {c : Computer} {image : Array UInt8} {origin : UInt16}
    (hfit : origin.toNat + image.size ≤ 0x10000)
    (hfree : ∀ i < image.size, c.bus.reader? (origin + UInt16.ofNat i) = none) :
    Bus.Shows (c.load image origin).bus origin image.toList := by
  rw [load, (same_reset _).shows]
  exact MappedBus.shows_map (d := .rom image) hfit hfree

end Computer

end M6502
