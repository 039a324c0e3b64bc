import M6502.Proofs.Bus.Mapped

/-!
# Which addresses share a cell

A read goes to one place, a device with an offset into it, and a write goes
to the places of all covering bindings. So an accepted write shows at the
addresses that are read from a place it went to, whatever binding led there,
and nowhere else.
-/

set_option autoImplicit false

namespace M6502

abbrev Place := Nat × UInt16

def Binding.place (b : Binding) (addr : UInt16) : Place :=
  (b.device, b.within addr)

namespace MappedBus

def readPlace? (bus : MappedBus) (addr : UInt16) : Option Place :=
  (bus.reader? addr).map (·.place addr)

def writePlaces (bus : MappedBus) (addr : UInt16) : List Place :=
  (bus.writers addr).map (·.place addr)

theorem SameLayout.writePlaces_eq {bus next : MappedBus} (h : SameLayout bus next) :
    next.writePlaces = bus.writePlaces := by
  funext addr
  rw [writePlaces, writers, h.bindings_eq]
  rfl

/-- What is written at `addr` is read at `other`. -/
def Aliased (bus : MappedBus) (addr other : UInt16) : Prop :=
  ∃ p ∈ bus.writePlaces addr, bus.readPlace? other = some p

instance (bus : MappedBus) (addr other : UInt16) : Decidable (bus.Aliased addr other) :=
  inferInstanceAs (Decidable (∃ p ∈ bus.writePlaces addr, bus.readPlace? other = some p))

theorem aliased_iff {bus : MappedBus} {addr other : UInt16} :
    bus.Aliased addr other ↔ ∃ r, bus.reader? other = some r ∧
      ∃ b ∈ bus.writers addr, b.device = r.device ∧ b.within addr = r.within other := by
  constructor
  · rintro ⟨p, hp, hr⟩
    obtain ⟨b, hb, rfl⟩ := List.mem_map.1 hp
    obtain ⟨r, hr, hplace⟩ := Option.map_eq_some_iff.1 hr
    obtain ⟨hdevice, hwithin⟩ := Prod.mk.inj hplace
    exact ⟨r, hr, b, hb, hdevice.symm, hwithin.symm⟩
  · rintro ⟨r, hr, b, hb, hdevice, hwithin⟩
    refine ⟨b.place addr, List.mem_map_of_mem hb, ?_⟩
    rw [readPlace?, hr, Option.map_some, Binding.place, Binding.place, hdevice, hwithin]

/-- An address reads from the first of the places that it writes to. -/
theorem readPlace?_eq_head? (bus : MappedBus) (addr : UInt16) :
    bus.readPlace? addr = (bus.writePlaces addr).head? := by
  rw [readPlace?, reader?, writePlaces, writers, List.head?_map, List.head?_filter]

theorem aliased_self {bus : MappedBus} {addr : UInt16} (h : bus.writePlaces addr ≠ []) :
    bus.Aliased addr addr :=
  ⟨_, List.head_mem h, (bus.readPlace?_eq_head? addr).trans (List.head?_eq_some_head h)⟩

variable {bus next : MappedBus} {addr : UInt16} {value : UInt8}

theorem write_eq (bus : MappedBus) (addr : UInt16) (value : UInt8) :
    Bus.write addr value bus =
      if bus.writers addr = [] then (.error (.unmappedWrite addr value), bus)
      else writeThrough addr value (bus.writers addr) bus := by
  rw [write_match]
  split
  · rename_i h
    rw [if_pos h]
  · rename_i h
    rw [if_neg h]

theorem refusal?_of_writeThrough {bindings : List Binding}
    (h : writeThrough addr value bindings bus = (.ok (), next)) :
    ∀ b ∈ bindings, bus.refusal? b.device (b.within addr) value = none := by
  induction bindings generalizing bus with
  | nil => exact List.forall_mem_nil _
  | cons b bindings ih =>
    cases hb : bus.refusal? b.device (b.within addr) value with
    | some e =>
      rw [writeThrough, writeDevice, hb] at h
      cases h
    | none =>
      obtain ⟨mid, hwrite, hstored⟩ := writeDevice_ok hb
      rw [writeThrough, hwrite] at h
      refine List.forall_mem_cons.2 ⟨hb, fun c hc => ?_⟩
      rw [← hstored.layout.refusal?_eq]
      exact ih h c hc

/-- A write is accepted where it goes somewhere and none of the devices refuses. -/
theorem write_ok_iff :
    (∃ next, Bus.write addr value bus = (.ok (), next)) ↔ bus.writePlaces addr ≠ [] ∧
      ∀ p ∈ bus.writePlaces addr, bus.refusal? p.1 p.2 value = none := by
  rw [write_eq, writePlaces, Ne, List.map_eq_nil_iff, List.forall_mem_map]
  by_cases hnil : bus.writers addr = []
  · rw [if_pos hnil]
    constructor
    · rintro ⟨next, h⟩
      cases h
    · intro h
      exact absurd hnil h.1
  · rw [if_neg hnil]
    constructor
    · rintro ⟨next, h⟩
      exact ⟨hnil, refusal?_of_writeThrough h⟩
    · rintro ⟨-, haccept⟩
      obtain ⟨next, h, -⟩ := writeThrough_ok haccept
      exact ⟨next, h⟩

/-- An accepted write keeps the layout, and the value is read exactly where it went. -/
theorem peek_write (h : Bus.write addr value bus = (.ok (), next)) :
    SameLayout bus next ∧ ∀ other, Bus.peek next other =
      if bus.Aliased addr other then value else Bus.peek bus other := by
  obtain ⟨hplaces, haccept⟩ := write_ok_iff.1 ⟨next, h⟩
  rw [writePlaces, List.forall_mem_map] at haccept
  obtain ⟨last, hlast, hlayout, hpeek⟩ := writeThrough_ok haccept
  rw [write_eq, if_neg (mt List.map_eq_nil_iff.2 hplaces)] at h
  cases h.symm.trans hlast
  refine ⟨hlayout, fun other => ?_⟩
  rw [peek_eq, peek_eq, hlayout.reader?_eq]
  simp only [aliased_iff]
  cases bus.reader? other with
  | none => simp
  | some r => simp only [hpeek, Option.some.injEq, exists_eq_left']

/-- The exact effect of an accepted write on what can be read: an address that is read from a place
the write went to shows the value, and every other address shows what it showed before. The address
that was written is one of the first kind. -/
theorem write_aliases (bus next : MappedBus) (addr : UInt16) (value : UInt8)
    (h : Bus.write addr value bus = (.ok (), next)) :
    (∀ other, Bus.peek next other =
      if bus.Aliased addr other then value else Bus.peek bus other) ∧
    Bus.peek next addr = value := by
  obtain ⟨hplaces, -⟩ := write_ok_iff.1 ⟨next, h⟩
  obtain ⟨-, hpeek⟩ := peek_write h
  refine ⟨hpeek, ?_⟩
  rw [hpeek, if_pos (aliased_self hplaces)]

def crossedWindows : MappedBus where
  devices := #[.ram 0x20 none]
  bindings := [⟨0, 0x0000, 0x0010, 0xFFF0⟩, ⟨0, 0x0008, 0x20000, 0x0000⟩]
  log := #[]
  attached := by decide

/-- What is written where the windows meet goes to two cells. It is read back from the first of
them, and at the address of that cell in the second window; the other cell is hidden by the first
window. -/
theorem write_aliases_crossed : ∃ next, Bus.write 0x0008 0x5A crossedWindows = (.ok (), next) ∧
    Bus.peek next 0x0008 = 0x5A ∧ Bus.peek next 0x0018 = 0x5A ∧
    Bus.peek next 0x0009 = Bus.peek crossedWindows 0x0009 := by
  obtain ⟨next, h⟩ : ∃ next, Bus.write 0x0008 0x5A crossedWindows = (.ok (), next) :=
    write_ok_iff.2 (by decide)
  obtain ⟨hpeek, hself⟩ := write_aliases crossedWindows next 0x0008 0x5A h
  refine ⟨next, h, hself, ?_, ?_⟩
  · rw [hpeek, if_pos (by decide)]
  · rw [hpeek, if_neg (by decide)]

end MappedBus

end M6502
