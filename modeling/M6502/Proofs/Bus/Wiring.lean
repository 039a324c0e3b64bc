import M6502.Proofs.Bus.Mapped
import M6502.Proofs.Processor.Lockstep

/-!
# The wiring of a bus

Which devices a bus has, where they are bound and what is stored in ROM: all
that a reset brings back. No request changes it. What observers have recorded
makes no difference to any request either, nor does a change to devices that
shows in no reply.
-/

set_option autoImplicit false

namespace M6502

namespace Device

theorem reset_set {d : Device} {offset : UInt16} {value : UInt8}
    (h : d.refusal? offset value = none) : (d.set offset value).reset = d.reset := by
  obtain ⟨contents, kind⟩ := d
  cases kind with
  | rom => contradiction
  | ram observer => simp [set, reset, size]

theorem reset_reset (d : Device) : d.reset.reset = d.reset := by
  obtain ⟨contents, kind⟩ := d
  cases kind with
  | rom => rfl
  | ram observer => simp [reset, size]

theorem kind_reset (d : Device) : d.reset.kind = d.kind := by
  obtain ⟨contents, kind⟩ := d
  cases kind <;> rfl

theorem size_reset (d : Device) : d.reset.size = d.size := by
  obtain ⟨contents, kind⟩ := d
  cases kind with
  | rom => rfl
  | ram observer => simp [reset, size]

/-- Only a ROM is reset to a ROM, and it is the same. -/
theorem eq_rom_of_reset {d : Device} {contents : Array UInt8} (h : d.reset = .rom contents) :
    d = .rom contents := by
  obtain ⟨cells, kind⟩ := d
  cases kind with
  | rom => exact h
  | ram observer => cases congrArg Device.kind h

end Device

namespace MappedBus

inductive Request where
  | read (addr : UInt16)
  | write (addr : UInt16) (value : UInt8)
  | readDevice (id : Nat) (offset : UInt16)
  | writeDevice (id : Nat) (offset : UInt16) (value : UInt8)
  | reset
  deriving DecidableEq, Repr

inductive Reply where
  | byte (value : UInt8)
  | written (answer : Except BusError Unit)
  | done

def request (bus : MappedBus) : Request → Reply × MappedBus
  | .read addr => (Bus.read addr bus).map .byte id
  | .write addr value => (Bus.write addr value bus).map .written id
  | .readDevice device offset => (bus.readDevice device offset).map .byte id
  | .writeDevice device offset value => (bus.writeDevice device offset value).map .written id
  | .reset => (.done, bus.reset)

structure SameWiring (bus next : MappedBus) : Prop where
  bindings_eq : next.bindings = bus.bindings
  cleared_eq : next.devices.map Device.reset = bus.devices.map Device.reset

namespace SameWiring

variable {bus next : MappedBus}

theorem refl (bus : MappedBus) : SameWiring bus bus :=
  ⟨rfl, rfl⟩

theorem device?_cleared (h : SameWiring bus next) (id : Nat) :
    (next.device? id).map Device.reset = (bus.device? id).map Device.reset := by
  rw [device?, device?, ← Array.getElem?_map, ← Array.getElem?_map, h.cleared_eq]

theorem sameLayout (h : SameWiring bus next) : SameLayout bus next where
  bindings_eq := h.bindings_eq
  shape_eq := by
    funext id
    have hshape (b : MappedBus) :
        b.shape? id = ((b.device? id).map Device.reset).map fun d => (d.kind, d.size) := by
      rw [Option.map_map, shape?]
      congr 1
      funext d
      rw [Function.comp_apply, Device.kind_reset, Device.size_reset]
    rw [hshape, hshape, h.device?_cleared]

theorem device?_rom (h : SameWiring bus next) {id : Nat} {contents : Array UInt8}
    (hrom : bus.device? id = some (.rom contents)) : next.device? id = some (.rom contents) := by
  have hcleared := h.device?_cleared id
  rw [hrom] at hcleared
  obtain ⟨d, hd, hreset⟩ := Option.map_eq_some_iff.1 hcleared
  rw [hd, Device.eq_rom_of_reset hreset]

theorem note (h : SameWiring bus next) (id : Nat) (kind : AccessKind) (offset : UInt16)
    (value : UInt8) : SameWiring bus (next.note id kind offset value) := by
  constructor
  · rw [bindings_note]
    exact h.bindings_eq
  · rw [devices_note]
    exact h.cleared_eq

theorem poke (h : SameWiring bus next) {id : Nat} {offset : UInt16} {value : UInt8}
    (haccept : next.refusal? id offset value = none) :
    SameWiring bus (next.poke id offset value) := by
  refine ⟨h.bindings_eq, Eq.trans ?_ h.cleared_eq⟩
  apply Array.ext_getElem?
  intro i
  rw [Array.getElem?_map, Array.getElem?_map]
  show ((next.poke id offset value).device? i).map Device.reset =
    (next.device? i).map Device.reset
  rw [device?_poke]
  split
  · rename_i hid
    subst hid
    unfold refusal? at haccept
    cases hd : next.device? id with
    | none => rfl
    | some d =>
      rw [hd] at haccept
      exact congrArg some (Device.reset_set haccept)
  · rfl

theorem writeDevice (h : SameWiring bus next) (id : Nat) (offset : UInt16) (value : UInt8) :
    SameWiring bus (next.writeDevice id offset value).2 := by
  rw [MappedBus.writeDevice]
  split
  · exact h
  · rename_i haccept
    exact (h.poke haccept).note ..

theorem writeThrough (h : SameWiring bus next) (addr : UInt16) (value : UInt8)
    (bindings : List Binding) : SameWiring bus (writeThrough addr value bindings next).2 := by
  induction bindings generalizing next with
  | nil => exact h
  | cons b bindings ih =>
    have hfirst := h.writeDevice b.device (b.within addr) value
    rw [MappedBus.writeThrough]
    split
    · rename_i mid hwrite
      rw [hwrite] at hfirst
      exact ih hfirst
    · rename_i cause mid hwrite
      rw [hwrite] at hfirst
      exact hfirst

theorem read (h : SameWiring bus next) (addr : UInt16) : SameWiring bus (Bus.read addr next).2 := by
  rw [read_match]
  split
  · exact h.note ..
  · exact h

theorem write (h : SameWiring bus next) (addr : UInt16) (value : UInt8) :
    SameWiring bus (Bus.write addr value next).2 := by
  rw [write_match]
  split
  · exact h
  · exact h.writeThrough ..

theorem reset (h : SameWiring bus next) : SameWiring bus next.reset := by
  refine ⟨h.bindings_eq, Eq.trans ?_ h.cleared_eq⟩
  show (next.devices.map Device.reset).map Device.reset = next.devices.map Device.reset
  rw [Array.map_map]
  congr 1
  funext d
  exact d.reset_reset

theorem request (h : SameWiring bus next) (r : Request) : SameWiring bus (next.request r).2 := by
  cases r with
  | read addr => exact h.read addr
  | write addr value => exact h.write addr value
  | readDevice id offset => exact h.note ..
  | writeDevice id offset value => exact h.writeDevice id offset value
  | reset => exact h.reset

end SameWiring

/-- A change to devices that shows in no reply, and that outlasts whatever happens to them. -/
structure Imperceptible (f : Device → Device) : Prop where
  get_eq (d : Device) : (f d).get = d.get
  refusal_eq (d : Device) : (f d).refusal? = d.refusal?
  set_eq (d : Device) (offset : UInt16) (value : UInt8) :
    f (d.set offset value) = (f d).set offset value
  reset_eq (d : Device) : f d.reset = (f d).reset

theorem imperceptible_id : Imperceptible id :=
  ⟨fun _ => rfl, fun _ => rfl, fun _ _ _ => rfl, fun _ => rfl⟩

structure SameUpTo (f : Device → Device) (bus next : MappedBus) : Prop where
  devices_eq : next.devices.map f = bus.devices.map f
  bindings_eq : next.bindings = bus.bindings

namespace SameUpTo

variable {f : Device → Device} {bus next : MappedBus}

theorem device?_eq (h : SameUpTo f bus next) (id : Nat) :
    (next.device? id).map f = (bus.device? id).map f := by
  rw [device?, device?, ← Array.getElem?_map, ← Array.getElem?_map, h.devices_eq]

theorem note (h : SameUpTo f bus next) (id : Nat) (kind : AccessKind) (offset : UInt16)
    (value : UInt8) :
    SameUpTo f (bus.note id kind offset value) (next.note id kind offset value) := by
  constructor
  · rw [devices_note, devices_note, h.devices_eq]
  · rw [bindings_note, bindings_note, h.bindings_eq]

section Requests

variable (hf : Imperceptible f)

include hf

theorem readDevice (h : SameUpTo f bus next) (id : Nat) (offset : UInt16) :
    (bus.readDevice id offset).1 = (next.readDevice id offset).1 ∧
      SameUpTo f (bus.readDevice id offset).2 (next.readDevice id offset).2 := by
  have hpeek (b : MappedBus) : b.peek id offset = ((b.device? id).map f).elim 0 (·.get offset) := by
    rw [peek]
    cases b.device? id with
    | none => rfl
    | some d => exact (congrFun (hf.get_eq d) offset).symm
  have hsame : bus.peek id offset = next.peek id offset := by
    rw [hpeek, hpeek, h.device?_eq]
  rw [MappedBus.readDevice, MappedBus.readDevice, hsame]
  exact ⟨rfl, h.note ..⟩

theorem poke (h : SameUpTo f bus next) (id : Nat) (offset : UInt16) (value : UInt8) :
    SameUpTo f (bus.poke id offset value) (next.poke id offset value) := by
  have hset : (f ∘ fun d : Device => d.set offset value) = (fun d => d.set offset value) ∘ f :=
    funext fun d => hf.set_eq d offset value
  refine ⟨?_, h.bindings_eq⟩
  apply Array.ext_getElem?
  intro i
  rw [Array.getElem?_map, Array.getElem?_map]
  show ((next.poke id offset value).device? i).map f = ((bus.poke id offset value).device? i).map f
  rw [device?_poke, device?_poke]
  split
  · rw [Option.map_map, Option.map_map, hset, ← Option.map_map, ← Option.map_map, h.device?_eq]
  · exact h.device?_eq i

theorem writeDevice (h : SameUpTo f bus next) (id : Nat) (offset : UInt16) (value : UInt8) :
    (bus.writeDevice id offset value).1 = (next.writeDevice id offset value).1 ∧
      SameUpTo f (bus.writeDevice id offset value).2 (next.writeDevice id offset value).2 := by
  have hrefusal (b : MappedBus) : b.refusal? id offset value =
      ((b.device? id).map f).elim (some (.unknownDevice id)) (·.refusal? offset value) := by
    rw [refusal?]
    cases b.device? id with
    | none => rfl
    | some d => exact (congrFun (congrFun (hf.refusal_eq d) offset) value).symm
  have hsame : bus.refusal? id offset value = next.refusal? id offset value := by
    rw [hrefusal, hrefusal, h.device?_eq]
  rw [MappedBus.writeDevice, MappedBus.writeDevice, hsame]
  split
  · exact ⟨rfl, h⟩
  · exact ⟨rfl, (h.poke hf id offset value).note ..⟩

theorem writeThrough (h : SameUpTo f bus next) (addr : UInt16) (value : UInt8)
    (bindings : List Binding) :
    (writeThrough addr value bindings bus).1 = (writeThrough addr value bindings next).1 ∧
      SameUpTo f (writeThrough addr value bindings bus).2
        (writeThrough addr value bindings next).2 := by
  induction bindings generalizing bus next with
  | nil => exact ⟨rfl, h⟩
  | cons b bindings ih =>
    obtain ⟨hanswer, hfirst⟩ := h.writeDevice hf b.device (b.within addr) value
    rw [MappedBus.writeThrough, MappedBus.writeThrough]
    generalize bus.writeDevice b.device (b.within addr) value = r at hanswer hfirst ⊢
    generalize next.writeDevice b.device (b.within addr) value = s at hanswer hfirst ⊢
    obtain ⟨answer, bus⟩ := r
    obtain ⟨_, next⟩ := s
    cases hanswer
    cases answer with
    | ok _ => exact ih hfirst
    | error cause => exact ⟨rfl, hfirst⟩

theorem lockstep : Bus.Lockstep (SameUpTo f) where
  read {bus next} h addr := by
    have hreader : bus.reader? addr = next.reader? addr := by
      rw [reader?, reader?, h.bindings_eq]
    rw [read_match, read_match, hreader]
    split
    · exact h.readDevice hf ..
    · exact ⟨rfl, h⟩
  write {bus next} h addr value := by
    have hwriters : bus.writers addr = next.writers addr := by
      rw [writers, writers, h.bindings_eq]
    rw [write_match, write_match, hwriters]
    split
    · exact ⟨rfl, h⟩
    · exact h.writeThrough hf ..

theorem reset (h : SameUpTo f bus next) : SameUpTo f bus.reset next.reset := by
  have hreset : f ∘ Device.reset = Device.reset ∘ f := funext hf.reset_eq
  refine ⟨?_, h.bindings_eq⟩
  show (next.devices.map Device.reset).map f = (bus.devices.map Device.reset).map f
  rw [Array.map_map, Array.map_map, hreset, ← Array.map_map, ← Array.map_map, h.devices_eq]

theorem request (h : SameUpTo f bus next) (r : Request) :
    (bus.request r).1 = (next.request r).1 ∧
      SameUpTo f (bus.request r).2 (next.request r).2 := by
  cases r with
  | read addr =>
    obtain ⟨hanswer, hnext⟩ := (lockstep hf).read h addr
    exact ⟨congrArg Reply.byte hanswer, hnext⟩
  | write addr value =>
    obtain ⟨hanswer, hnext⟩ := (lockstep hf).write h addr value
    exact ⟨congrArg Reply.written hanswer, hnext⟩
  | readDevice id offset =>
    obtain ⟨hanswer, hnext⟩ := h.readDevice hf id offset
    exact ⟨congrArg Reply.byte hanswer, hnext⟩
  | writeDevice id offset value =>
    obtain ⟨hanswer, hnext⟩ := h.writeDevice hf id offset value
    exact ⟨congrArg Reply.written hanswer, hnext⟩
  | reset => exact ⟨rfl, h.reset hf⟩

end Requests

end SameUpTo

structure SameButLog (bus next : MappedBus) : Prop where
  devices_eq : next.devices = bus.devices
  bindings_eq : next.bindings = bus.bindings

namespace SameButLog

theorem eq_sameUpTo : SameButLog = SameUpTo id := by
  funext bus next
  apply propext
  constructor
  · rintro ⟨hdevices, hbindings⟩
    exact ⟨congrArg _ hdevices, hbindings⟩
  · rintro ⟨hdevices, hbindings⟩
    rw [Array.map_id, Array.map_id] at hdevices
    exact ⟨hdevices, hbindings⟩

variable {bus next : MappedBus}

theorem lockstep : Bus.Lockstep SameButLog := by
  rw [eq_sameUpTo]
  exact SameUpTo.lockstep imperceptible_id

theorem request (h : SameButLog bus next) (r : Request) :
    (bus.request r).1 = (next.request r).1 ∧
      SameButLog (bus.request r).2 (next.request r).2 := by
  rw [eq_sameUpTo] at h ⊢
  exact h.request imperceptible_id r

theorem of_read (h : SameButLog bus next) (addr : UInt16) :
    SameButLog bus (Bus.read addr next).2 := by
  rw [read_match]
  split
  · exact ⟨(devices_note ..).trans h.devices_eq, (bindings_note ..).trans h.bindings_eq⟩
  · exact h

end SameButLog

end MappedBus

end M6502
