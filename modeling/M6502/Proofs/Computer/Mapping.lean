import M6502.Proofs.Bus.Loading
import M6502.Proofs.Computer.PowerCycle

/-!
# Mapping

A device that is mapped onto a bus shows where nothing was bound before, and
nothing else is different: what was bound shows as it did, whatever lies
behind it, and the other devices keep their contents. A computer that loads
an image takes its vectors from what is shown then.
-/

set_option autoImplicit false

namespace M6502

def Device.shownAt? (d : Device) (start addr : UInt16) : Option UInt8 :=
  if start ≤ addr then d.contents[addr.toNat - start.toNat]? else none

namespace MappedBus

def Bound (bus : MappedBus) (addr : UInt16) : Prop :=
  ∃ b ∈ bus.bindings, b.covers addr = true

instance (bus : MappedBus) (addr : UInt16) : Decidable (bus.Bound addr) :=
  inferInstanceAs (Decidable (∃ b ∈ bus.bindings, b.covers addr = true))

def extended (bus : MappedBus) (added : UInt16 → Option UInt8) (addr : UInt16) : UInt8 :=
  if bus.Bound addr then Bus.peek bus addr else (added addr).getD (Bus.peek bus addr)

structure Extends (bus next : MappedBus) (added : UInt16 → Option UInt8) : Prop where
  device?_eq : ∀ id < bus.devices.size, next.device? id = bus.device? id
  bound_iff : ∀ addr, next.Bound addr ↔ bus.Bound addr ∨ (added addr).isSome = true
  peek_eq : Bus.peek next = bus.extended added

variable {bus mid next : MappedBus} {added more : UInt16 → Option UInt8}

theorem bound_iff_reader? {addr : UInt16} :
    bus.Bound addr ↔ (bus.reader? addr).isSome = true :=
  List.find?_isSome.symm

/-- What is added later lies behind what was added before. -/
theorem Extends.trans (h : Extends bus mid added) (k : Extends mid next more) :
    Extends bus next fun addr => (added addr).or (more addr) := by
  refine ⟨fun id hid => ?_, fun addr => ?_, funext fun addr => ?_⟩
  · have hattached : id < mid.devices.size := by
      refine (Array.getElem?_eq_some_iff.1 (?_ : mid.device? id = some bus.devices[id])).1
      exact (h.device?_eq id hid).trans (Array.getElem?_eq_getElem hid)
    exact (k.device?_eq id hattached).trans (h.device?_eq id hid)
  · rw [k.bound_iff, h.bound_iff, Option.isSome_or, Bool.or_eq_true, or_assoc]
  · have hbound := h.bound_iff addr
    rw [k.peek_eq, extended, extended, h.peek_eq, extended]
    by_cases hbus : bus.Bound addr
    · rw [if_pos (hbound.2 (.inl hbus)), if_pos hbus, if_pos hbus]
    · rw [if_neg hbus, if_neg hbus]
      cases hadded : added addr with
      | some value =>
        rw [if_pos (hbound.2 (.inr (by rw [hadded, Option.isSome_some])))]
        rfl
      | none =>
        rw [if_neg fun hmid => by simpa [hbus, hadded] using hbound.1 hmid]
        rfl

theorem Extends.of_sameButLog (h : Extends bus mid added) (hs : SameButLog mid next) :
    Extends bus next added := by
  refine ⟨fun id hid => ?_, fun addr => ?_, ?_⟩
  · rw [device?, hs.devices_eq]
    exact h.device?_eq id hid
  · rw [Bound, hs.bindings_eq]
    exact h.bound_iff addr
  · rw [← h.peek_eq]
    exact funext fun addr => (SameButLog.lockstep.read hs addr).1.symm

theorem extends_attach (bus : MappedBus) (d : Device) :
    bus.Extends (bus.attach d) fun _ => none := by
  have hdevice (id : Nat) (hid : id < bus.devices.size) :
      (bus.attach d).device? id = bus.device? id :=
    (Array.getElem?_push_lt hid).trans (Array.getElem?_eq_getElem hid).symm
  refine ⟨hdevice, fun addr => (or_iff_left Bool.false_ne_true).symm, funext fun addr => ?_⟩
  rw [extended, Option.getD_none, ite_self, MappedBus.peek_eq, MappedBus.peek_eq,
    show (bus.attach d).reader? addr = bus.reader? addr from rfl]
  cases hbound : bus.reader? addr with
  | none => rfl
  | some b =>
    simp only [peek, hdevice b.device (bus.attached b (List.mem_of_find?_eq_some hbound))]

/-- A binding that reaches from the first byte of a device to its last shows the device. -/
theorem shownAt?_eq {d : Device} {b : Binding} (hdevice : bus.device? b.device = some d)
    (hoffset : b.offset = b.start) (hstop : b.stop = min (b.start.toNat + d.size) 0x10000)
    (addr : UInt16) :
    d.shownAt? b.start addr =
      if b.covers addr = true then some (bus.peek b.device (b.within addr)) else none := by
  have haddr := addr.toNat_lt
  have hcovers : b.covers addr = true ↔
      b.start ≤ addr ∧ addr.toNat - b.start.toNat < d.contents.size := by
    rw [Binding.covers, Bool.and_eq_true, decide_eq_true_eq, decide_eq_true_eq, hstop,
      UInt16.le_iff_toNat_le, Device.size]
    omega
  rw [Device.shownAt?]
  by_cases hcover : b.covers addr = true
  · obtain ⟨hle, hlt⟩ := hcovers.1 hcover
    rw [if_pos hle, if_pos hcover, peek, hdevice, Binding.within, hoffset,
      Array.getElem?_eq_getElem hlt]
    simp only [Device.get, UInt16.toNat_sub_of_le _ _ hle, Array.getD_eq_getD_getElem?,
      Array.getElem?_eq_getElem hlt, Option.getD_some]
  · rw [if_neg hcover, ite_eq_right_iff]
    intro hle
    exact Array.getElem?_eq_none (Nat.le_of_not_lt fun hlt => hcover (hcovers.2 ⟨hle, hlt⟩))

theorem extends_bind (bus : MappedBus) {d : Device} (b : Binding) (h : b.device < bus.devices.size)
    (hdevice : bus.device? b.device = some d) (hoffset : b.offset = b.start)
    (hstop : b.stop = min (b.start.toNat + d.size) 0x10000) :
    bus.Extends (bus.bind b h) (d.shownAt? b.start) := by
  have hshown := shownAt?_eq hdevice hoffset hstop
  refine ⟨fun _ _ => rfl, fun addr => ?_, funext fun addr => ?_⟩
  · rw [bound_iff_reader?, bound_iff_reader?, reader?_bind, Option.isSome_or, Bool.or_eq_true,
      hshown]
    split <;> rfl
  · rw [extended, if_congr bound_iff_reader? rfl rfl, MappedBus.peek_eq, MappedBus.peek_eq,
      reader?_bind, hshown]
    cases bus.reader? addr with
    | some c => rfl
    | none => cases b.covers addr <;> rfl

theorem extends_map (bus : MappedBus) (d : Device) (start : UInt16) :
    bus.Extends (bus.map d start) (d.shownAt? start) :=
  (bus.extends_attach d).trans ((bus.attach d).extends_bind _ _ (device?_nextId bus d) rfl rfl)

/-- What would lie past the end of the address space does not come up at its start. -/
example : Bus.peek (empty.map (.rom #[1, 2, 3]) 0xFFFE) 0xFFFF = 2 ∧
    Bus.peek (empty.map (.rom #[1, 2, 3]) 0xFFFE) 0 = 0 := by decide

def cartridgeAt? (image : Array UInt8) (addr : UInt16) : Option UInt8 :=
  ((Device.rom image).shownAt? 0x8000 addr).or
    (if image.size = 0x4000 then (Device.rom image).shownAt? 0xC000 addr else none)

theorem extends_mapCartridge (bus : MappedBus) (image : Array UInt8) :
    bus.Extends (bus.mapCartridge image) (cartridgeAt? image) := by
  have hmap := bus.extends_map (.rom image) 0x8000
  rw [mapCartridge]
  split
  · rename_i hsize
    have hmirror := (bus.map (.rom image) 0x8000).extends_bind
      ⟨bus.nextId, 0xC000, 0x10000, 0xC000⟩ (by simp [map, bind, attach, nextId])
      (device?_nextId bus (.rom image)) rfl
      (show 0x10000 = min (0xC000 + image.size) 0x10000 by omega)
    rw [show cartridgeAt? image = fun addr => ((Device.rom image).shownAt? 0x8000 addr).or
      ((Device.rom image).shownAt? 0xC000 addr) from funext fun addr => by
        rw [cartridgeAt?, if_pos hsize]]
    exact hmap.trans hmirror
  · rename_i hsize
    rw [show cartridgeAt? image = (Device.rom image).shownAt? 0x8000 from funext fun addr => by
      rw [cartridgeAt?, if_neg hsize, Option.or_none]]
    exact hmap

end MappedBus

theorem Bus.readWord_fst {β : Type} [Bus β] [Storage β] (bus : β) (addr : UInt16) :
    (Bus.readWord addr bus).1 = word (Bus.peek bus addr) (Bus.peek bus (addr + 1)) := by
  show word (Bus.peek bus addr) (Bus.peek (Bus.read addr bus).2 (addr + 1)) = _
  rw [Storage.peek_read]

namespace Computer

/-- The vectors are what the bus still answers after the reset. -/
theorem vectors_reset (c : Computer) :
    c.reset.vectors = ⟨(Bus.readWord nmiVector c.reset.bus).1,
      (Bus.readWord resetVector c.reset.bus).1, (Bus.readWord irqVector c.reset.bus).1⟩ := by
  have hword (bus : MappedBus) (addr : UInt16) :
      Bus.peek (Bus.readWord addr bus).2 = Bus.peek bus :=
    (Storage.peek_read (addr + 1) _).trans (Storage.peek_read addr bus)
  simp only [Bus.readWord_fst, (same_reset c).peek_eq]
  simp only [reset_eq, Bus.readWord_fst, hword]

theorem vectors_load (c : Computer) (image : Array UInt8) (offset : UInt16) :
    (c.load image offset).vectors = ⟨(Bus.readWord nmiVector (c.load image offset).bus).1,
      (Bus.readWord resetVector (c.load image offset).bus).1,
      (Bus.readWord irqVector (c.load image offset).bus).1⟩ := by
  rw [load]
  exact vectors_reset _

theorem pc_load (c : Computer) (image : Array UInt8) (offset : UInt16) :
    (c.load image offset).regs.pc = (c.load image offset).vectors.reset := by
  rw [load, reset_eq]
  rfl

theorem extends_load (c : Computer) (image : Array UInt8) (start : UInt16) :
    c.bus.Extends (c.load image start).bus ((Device.rom image).shownAt? start) := by
  rw [load]
  exact (c.bus.extends_map (.rom image) start).of_sameButLog
    (bus_reset_eq { c with bus := c.bus.map (.rom image) start })

/-- Mapping only adds. After a device was mapped at an address, a cartridge image was mapped, or an
image was loaded, the devices that were there are as they were; an address that a binding covered
reads as before, any other address reads the byte that was put there, and where none was put it too
reads as before. A load takes the vectors and the program counter from the words that the bus with
its addition has at their places. -/
theorem mapping_extends (c : Computer) (d : Device) (image : Array UInt8) (start : UInt16) :
    c.bus.Extends (c.bus.map d start) (d.shownAt? start) ∧
    c.bus.Extends (c.bus.mapCartridge image) (MappedBus.cartridgeAt? image) ∧
    let loaded := c.load image start
    let shown := c.bus.extended ((Device.rom image).shownAt? start)
    c.bus.Extends loaded.bus ((Device.rom image).shownAt? start) ∧
    loaded.vectors = ⟨word (shown 0xFFFA) (shown 0xFFFB), word (shown 0xFFFC) (shown 0xFFFD),
      word (shown 0xFFFE) (shown 0xFFFF)⟩ ∧
    loaded.regs.pc = word (shown 0xFFFC) (shown 0xFFFD) := by
  have hload := extends_load c image start
  have hvectors := vectors_load c image start
  simp only [Bus.readWord_fst, hload.peek_eq] at hvectors
  refine ⟨c.bus.extends_map d start, c.bus.extends_mapCartridge image, hload, hvectors, ?_⟩
  rw [pc_load, hvectors]
  rfl

end Computer

end M6502
