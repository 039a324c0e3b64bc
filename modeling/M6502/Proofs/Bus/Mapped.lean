import M6502.Bus.Mapped
import M6502.Proofs.Bus.Cells
import Mathlib.Data.List.Basic

/-!
# What a bus of devices shows

Accesses change neither the bindings of a bus nor the kind and size of a
device. A write that is accepted leaves its value in every device cell that
a covering binding leads to, so an address is a cell of the bus when all its
bindings lead to RAM and no other address is answered from the same place.
-/

set_option autoImplicit false

namespace M6502

namespace MappedBus

def shape? (bus : MappedBus) (id : Nat) : Option (DeviceKind × Nat) :=
  (bus.device? id).map fun d => (d.kind, d.size)

structure SameLayout (bus next : MappedBus) : Prop where
  bindings_eq : next.bindings = bus.bindings
  shape_eq : next.shape? = bus.shape?

theorem SameLayout.refl (bus : MappedBus) : SameLayout bus bus :=
  ⟨rfl, rfl⟩

theorem SameLayout.trans {bus next last : MappedBus} (h : SameLayout bus next)
    (k : SameLayout next last) : SameLayout bus last :=
  ⟨k.bindings_eq.trans h.bindings_eq, k.shape_eq.trans h.shape_eq⟩

theorem SameLayout.reader?_eq {bus next : MappedBus} (h : SameLayout bus next) (addr : UInt16) :
    next.reader? addr = bus.reader? addr := by
  rw [reader?, h.bindings_eq]
  rfl

theorem refusal?_eq (bus : MappedBus) (id : Nat) (offset : UInt16) (value : UInt8) :
    bus.refusal? id offset value = match bus.shape? id with
      | some (.rom, _) => some (.readOnly offset value)
      | some (.ram _, size) =>
        if offset.toNat < size then none else some (.outsideDevice offset size)
      | none => some (.unknownDevice id) := by
  rw [refusal?, shape?]
  cases bus.device? id with
  | none => rfl
  | some d =>
    obtain ⟨contents, kind⟩ := d
    cases kind <;> rfl

theorem tag?_of_shape (bus : MappedBus) (id : Nat) :
    (bus.device? id).bind Device.tag? = (bus.shape? id).bind fun s => Device.tag? ⟨#[], s.1⟩ := by
  rw [shape?]
  cases bus.device? id <;> rfl

theorem SameLayout.refusal?_eq {bus next : MappedBus} (h : SameLayout bus next) (id : Nat)
    (offset : UInt16) (value : UInt8) :
    next.refusal? id offset value = bus.refusal? id offset value := by
  rw [MappedBus.refusal?_eq, MappedBus.refusal?_eq, h.shape_eq]

@[simp]
theorem devices_note (bus : MappedBus) (id : Nat) (kind : AccessKind) (offset : UInt16)
    (value : UInt8) : (bus.note id kind offset value).devices = bus.devices := by
  unfold note
  split <;> rfl

@[simp]
theorem bindings_note (bus : MappedBus) (id : Nat) (kind : AccessKind) (offset : UInt16)
    (value : UInt8) : (bus.note id kind offset value).bindings = bus.bindings := by
  unfold note
  split <;> rfl

@[simp]
theorem device?_note (bus : MappedBus) (id : Nat) (kind : AccessKind) (offset : UInt16)
    (value : UInt8) (other : Nat) :
    (bus.note id kind offset value).device? other = bus.device? other := by
  rw [device?, devices_note]
  rfl

@[simp]
theorem peek_note (bus : MappedBus) (id : Nat) (kind : AccessKind) (offset : UInt16)
    (value : UInt8) : (bus.note id kind offset value).peek = bus.peek := by
  funext other place
  simp only [MappedBus.peek, device?_note]

theorem sameLayout_note (bus : MappedBus) (id : Nat) (kind : AccessKind) (offset : UInt16)
    (value : UInt8) : SameLayout bus (bus.note id kind offset value) := by
  constructor
  · exact bindings_note ..
  · funext other
    simp only [shape?, device?_note]

theorem device?_poke (bus : MappedBus) (id : Nat) (offset : UInt16) (value : UInt8) (other : Nat) :
    (bus.poke id offset value).device? other =
      if id = other then (bus.device? other).map fun d => d.set offset value
      else bus.device? other := by
  simp only [device?, poke, Array.getElem?_modify]

theorem sameLayout_poke (bus : MappedBus) (id : Nat) (offset : UInt16) (value : UInt8) :
    SameLayout bus (bus.poke id offset value) := by
  constructor
  · rfl
  · funext other
    rw [shape?, shape?, device?_poke]
    split
    · rw [Option.map_map]
      congr 1
      funext d
      simp [Device.set, Device.size]
    · rfl

def byte? (bus : MappedBus) (id i : Nat) : Option UInt8 :=
  (bus.device? id).bind fun d => d.contents[i]?

theorem peek_eq_byte? (bus : MappedBus) (id : Nat) (offset : UInt16) :
    bus.peek id offset = (bus.byte? id offset.toNat).getD 0 := by
  rw [peek, byte?]
  cases bus.device? id with
  | none => rfl
  | some d => exact Array.getD_eq_getD_getElem?

theorem lt_size_of_refusal? {d : Device} {offset : UInt16} {value : UInt8}
    (h : d.refusal? offset value = none) : offset.toNat < d.contents.size := by
  obtain ⟨contents, kind⟩ := d
  cases kind with
  | rom => contradiction
  | ram observer =>
    by_contra hge
    simp [Device.refusal?, Device.size, hge] at h

/-- A device that does not refuse a write has the value at its offset. -/
theorem byte?_poke {bus : MappedBus} {id : Nat} {offset : UInt16} {value : UInt8}
    (h : bus.refusal? id offset value = none) (other i : Nat) :
    (bus.poke id offset value).byte? other i =
      if id = other ∧ offset.toNat = i then some value else bus.byte? other i := by
  rw [byte?, device?_poke, byte?]
  by_cases hid : id = other
  · subst hid
    unfold refusal? at h
    cases hd : bus.device? id with
    | none => simp [hd] at h
    | some d =>
      rw [hd] at h
      rw [if_pos rfl, Option.map_some, Option.bind_some, Option.bind_some, Device.set,
        Array.getElem?_setIfInBounds, if_pos (lt_size_of_refusal? h)]
      simp only [true_and]
  · rw [if_neg hid, if_neg fun h => hid h.1]

theorem read_match (bus : MappedBus) (addr : UInt16) :
    Bus.read addr bus = match bus.reader? addr with
      | some b => bus.readDevice b.device (b.within addr)
      | none => (0, bus) :=
  rfl

theorem write_match (bus : MappedBus) (addr : UInt16) (value : UInt8) :
    Bus.write addr value bus = match bus.writers addr with
      | [] => (.error (.unmappedWrite addr value), bus)
      | bindings => writeThrough addr value bindings bus :=
  rfl

theorem peek_eq (bus : MappedBus) (addr : UInt16) :
    Bus.peek bus addr = match bus.reader? addr with
      | some b => bus.peek b.device (b.within addr)
      | none => 0 := by
  rw [Bus.peek, read_match]
  split <;> rfl

theorem read_eq (bus : MappedBus) (addr : UInt16) :
    SameLayout bus (Bus.read addr bus).2 ∧ (Bus.read addr bus).2.peek = bus.peek := by
  rw [read_match]
  split
  · exact ⟨sameLayout_note .., peek_note ..⟩
  · exact ⟨.refl bus, rfl⟩

theorem SameLayout.of_reads {bus next : MappedBus} (h : Bus.Reads bus next) :
    SameLayout bus next := by
  induction h with
  | refl => exact .refl bus
  | read _ addr ih => exact ih.trans (read_eq _ addr).1

/-- A bus shows the same when its layout and its devices' bytes are the same. -/
theorem peek_congr {bus next : MappedBus} (h : SameLayout bus next) (hp : next.peek = bus.peek) :
    Bus.peek next = Bus.peek bus := by
  funext addr
  rw [peek_eq, peek_eq, h.reader?_eq, hp]

def noted (bus : MappedBus) (value : UInt8) (places : List (Nat × UInt16)) : List Access :=
  places.filterMap fun p =>
    ((bus.device? p.1).bind Device.tag?).map fun tag => ⟨.write, tag, p.2, value⟩

theorem noted_singleton (bus : MappedBus) (value : UInt8) (p : Nat × UInt16) :
    bus.noted value [p] = (((bus.device? p.1).bind Device.tag?).map fun tag =>
      (⟨.write, tag, p.2, value⟩ : Access)).toList := by
  rw [noted, List.filterMap_cons, List.filterMap_nil]
  split
  · rename_i h
    rw [h]
    rfl
  · rename_i h
    rw [h]
    rfl

structure Stored (bus next : MappedBus) (places : List (Nat × UInt16)) (value : UInt8) :
    Prop where
  layout : SameLayout bus next
  byte?_eq (id i : Nat) : next.byte? id i =
    if ∃ p ∈ places, p.1 = id ∧ p.2.toNat = i then some value else bus.byte? id i
  log_eq : next.log.toList = bus.log.toList ++ bus.noted value places

namespace Stored

variable {bus next last : MappedBus} {places others : List (Nat × UInt16)} {value : UInt8}

theorem refl (bus : MappedBus) (value : UInt8) : Stored bus bus [] value :=
  ⟨.refl bus, by simp, (List.append_nil _).symm⟩

theorem trans (h : Stored bus next places value) (k : Stored next last others value) :
    Stored bus last (places ++ others) value := by
  refine ⟨h.layout.trans k.layout, fun id i => ?_, ?_⟩
  · simp only [k.byte?_eq, h.byte?_eq, List.mem_append, or_and_right, exists_or]
    by_cases hother : ∃ p ∈ others, p.1 = id ∧ p.2.toNat = i
    · rw [if_pos hother, if_pos (.inr hother)]
    · simp only [hother, or_false, if_false]
  · have hnoted : next.noted value others = bus.noted value others := by
      simp only [noted, tag?_of_shape, h.layout.shape_eq]
    rw [k.log_eq, h.log_eq, hnoted, List.append_assoc, noted, noted, noted, List.filterMap_append]

theorem peek_eq (h : Stored bus next places value) (id : Nat) (offset : UInt16) :
    next.peek id offset = if (id, offset) ∈ places then value else bus.peek id offset := by
  have hplace : (∃ p ∈ places, p.1 = id ∧ p.2.toNat = offset.toNat) ↔ (id, offset) ∈ places := by
    simp only [UInt16.toNat_inj, Prod.exists]
    constructor
    · rintro ⟨_, _, hp, rfl, rfl⟩
      exact hp
    · exact fun hp => ⟨id, offset, hp, rfl, rfl⟩
  rw [peek_eq_byte?, h.byte?_eq, if_congr hplace rfl rfl, peek_eq_byte?]
  split <;> rfl

end Stored

theorem writeDevice_ok {bus : MappedBus} {id : Nat} {offset : UInt16} {value : UInt8}
    (h : bus.refusal? id offset value = none) :
    ∃ next, bus.writeDevice id offset value = (.ok (), next) ∧
      Stored bus next [(id, offset)] value := by
  refine ⟨(bus.poke id offset value).note id .write offset value, ?_, ?_, ?_, ?_⟩
  · rw [writeDevice, h]
  · exact (sameLayout_poke ..).trans (sameLayout_note ..)
  · intro other i
    rw [byte?, device?_note, ← byte?, byte?_poke h]
    simp only [List.mem_singleton, exists_eq_left]
  · have htag : ((bus.poke id offset value).device? id).bind Device.tag? =
        (bus.device? id).bind Device.tag? := by
      rw [tag?_of_shape, (sameLayout_poke ..).shape_eq, ← tag?_of_shape]
    rw [note, htag, noted_singleton]
    cases (bus.device? id).bind Device.tag? with
    | none => exact (List.append_nil _).symm
    | some tag => exact Array.toList_push

/-- A write goes on behind bindings that lead to no refusal, once the value stands behind each of
them. -/
theorem writeThrough_append {bus : MappedBus} {addr : UInt16} {value : UInt8}
    {front : List Binding} (back : List Binding)
    (h : ∀ b ∈ front, bus.refusal? b.device (b.within addr) value = none) :
    ∃ next, writeThrough addr value (front ++ back) bus = writeThrough addr value back next ∧
      Stored bus next (front.map fun b => (b.device, b.within addr)) value := by
  induction front generalizing bus with
  | nil => exact ⟨bus, rfl, .refl bus value⟩
  | cons b front ih =>
    rw [List.forall_mem_cons] at h
    obtain ⟨mid, hwrite, hfirst⟩ := writeDevice_ok h.1
    obtain ⟨next, hrest, hstored⟩ := ih fun c hc => by
      rw [hfirst.layout.refusal?_eq]
      exact h.2 c hc
    refine ⟨next, ?_, hfirst.trans hstored⟩
    rw [List.cons_append, writeThrough, hwrite]
    exact hrest

/-- Where no binding leads to a refusal, the value stands behind each of them afterwards. -/
theorem writeThrough_ok {bus : MappedBus} {addr : UInt16} {value : UInt8} {bindings : List Binding}
    (h : ∀ b ∈ bindings, bus.refusal? b.device (b.within addr) value = none) :
    ∃ next, writeThrough addr value bindings bus = (.ok (), next) ∧ SameLayout bus next ∧
      ∀ id offset, next.peek id offset =
        if ∃ b ∈ bindings, b.device = id ∧ b.within addr = offset then value
        else bus.peek id offset := by
  obtain ⟨next, hwrite, hstored⟩ := writeThrough_append [] h
  rw [List.append_nil] at hwrite
  refine ⟨next, hwrite, hstored.layout, fun id offset => ?_⟩
  simp only [hstored.peek_eq, List.mem_map, Prod.mk.injEq]

/-- Every binding of the address leads to RAM, and no other address is answered from there. -/
structure Cell (bus : MappedBus) (addr : UInt16) : Prop where
  bound : ∃ b ∈ bus.bindings, b.covers addr = true
  ram : ∀ b ∈ bus.bindings, b.covers addr = true →
    ∃ observer size, bus.shape? b.device = some (.ram observer, size) ∧
      (b.within addr).toNat < size
  alone : ∀ b ∈ bus.bindings, b.covers addr = true → ∀ other c, bus.reader? other = some c →
    c.device = b.device → c.within other = b.within addr → other = addr

/-- A RAM that is bound once, where nothing else is bound, has cells there. -/
theorem cell_of_once {bus : MappedBus} {addr : UInt16} {b : Binding} (hb : b ∈ bus.bindings)
    (hcover : b.covers addr = true) {observer : Option Observer} {size : Nat}
    (hshape : bus.shape? b.device = some (.ram observer, size))
    (hin : (b.within addr).toNat < size)
    (honly : ∀ c ∈ bus.bindings, c.device = b.device ∨ c.covers addr = true → c = b) :
    bus.Cell addr where
  bound := ⟨b, hb, hcover⟩
  ram c hc hcov := by
    obtain rfl := honly c hc (.inr hcov)
    exact ⟨observer, size, hshape, hin⟩
  alone c hc hcov other d hread hdevice hwithin := by
    obtain rfl := honly c hc (.inr hcov)
    obtain rfl := honly d (List.mem_of_find?_eq_some hread) (.inl hdevice)
    have hadd := congrArg (· + d.offset) hwithin
    simpa [Binding.within] using hadd

theorem Cell.of_sameLayout {bus next : MappedBus} (h : SameLayout bus next) {addr : UInt16}
    (hc : bus.Cell addr) : next.Cell addr := by
  constructor
  · rw [h.bindings_eq]
    exact hc.bound
  · rw [h.bindings_eq, h.shape_eq]
    exact hc.ram
  · intro b hb hcover other c hread
    rw [h.bindings_eq] at hb
    rw [h.reader?_eq] at hread
    exact hc.alone b hb hcover other c hread

theorem SameLayout.symm {bus next : MappedBus} (h : SameLayout bus next) : SameLayout next bus :=
  ⟨h.bindings_eq.symm, h.shape_eq.symm⟩

theorem SameLayout.cell_eq {bus next : MappedBus} (h : SameLayout bus next) :
    next.Cell = bus.Cell := by
  funext addr
  exact propext ⟨Cell.of_sameLayout h.symm, Cell.of_sameLayout h⟩

theorem mem_writers {bus : MappedBus} {addr : UInt16} {b : Binding} :
    b ∈ bus.writers addr ↔ b ∈ bus.bindings ∧ b.covers addr = true :=
  List.mem_filter

theorem mem_writers_of_reader? {bus : MappedBus} {addr : UInt16} {b : Binding}
    (h : bus.reader? addr = some b) : b ∈ bus.writers addr := by
  have hcover := List.find?_some h
  exact mem_writers.2 ⟨List.mem_of_find?_eq_some h, hcover⟩

theorem reader?_of_bound {bus : MappedBus} {addr : UInt16}
    (h : ∃ b ∈ bus.bindings, b.covers addr = true) : ∃ b, bus.reader? addr = some b :=
  Option.isSome_iff_exists.1 (List.find?_isSome.2 h)

theorem Cell.write {bus : MappedBus} {addr : UInt16} (h : bus.Cell addr) (value : UInt8) :
    ∃ next, Bus.write addr value bus = (.ok (), next) ∧ SameLayout bus next ∧
      Bus.peek next = Function.update (Bus.peek bus) addr value := by
  have haccept (b : Binding) (hb : b ∈ bus.writers addr) :
      bus.refusal? b.device (b.within addr) value = none := by
    obtain ⟨hmem, hcover⟩ := mem_writers.1 hb
    obtain ⟨observer, size, hshape, hlt⟩ := h.ram b hmem hcover
    simp only [refusal?_eq, hshape, if_pos hlt]
  obtain ⟨next, hwrite, hlayout, hpeek⟩ := writeThrough_ok haccept
  obtain ⟨reader, hreader⟩ := reader?_of_bound h.bound
  have hmem := mem_writers_of_reader? hreader
  refine ⟨next, ?_, hlayout, ?_⟩
  · simp only [Bus.write]
    split
    · rename_i hnil
      rw [hnil] at hmem
      exact absurd hmem List.not_mem_nil
    · exact hwrite
  · funext other
    rw [peek_eq, hlayout.reader?_eq, Function.update_apply, peek_eq]
    by_cases ho : other = addr
    · subst ho
      rw [if_pos rfl, hreader]
      simp only [hpeek]
      exact if_pos ⟨reader, hmem, rfl, rfl⟩
    · rw [if_neg ho]
      cases hother : bus.reader? other with
      | none => rfl
      | some c =>
        simp only [hpeek]
        refine if_neg ?_
        rintro ⟨b, hb, hdevice, hwithin⟩
        obtain ⟨hb, hcover⟩ := mem_writers.1 hb
        exact ho (h.alone b hb hcover other c hother hdevice.symm hwithin.symm)

instance : Storage MappedBus where
  Cell := Cell
  peek_read addr bus := peek_congr (read_eq bus addr).1 (read_eq bus addr).2
  cell_read addr bus := (read_eq bus addr).1.cell_eq
  write_cell h value := by
    obtain ⟨next, hwrite, hlayout, hpeek⟩ := h.write value
    exact ⟨next, hwrite, hpeek, hlayout.cell_eq⟩

end MappedBus

end M6502
