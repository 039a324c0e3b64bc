import M6502.Proofs.Processor.Requests

/-!
# Observed RAM

The log of a recording observer is a faithful history of its RAM: an entry
for each read and for each write that gets to the RAM, and none for anything
else. The writes since the last reset, made again on a cleared RAM, give its
contents, and what they gave at the time of a read is what was read. The
observer itself makes no difference.
-/

set_option autoImplicit false

namespace M6502

inductive Touch where
  | read (offset : UInt16)
  | write (offset : UInt16) (value : UInt8)
  | reset
  deriving DecidableEq, Repr

structure Ledger where
  all : List Access
  recent : List Access
  deriving DecidableEq, Repr

namespace Ledger

def replay (size : Nat) (log : List Access) : Array UInt8 :=
  log.foldl
    (fun cells a =>
      if a.kind = .write then cells.setIfInBounds a.offset.toNat a.value else cells)
    (Array.replicate size 0)

def enter (l : Ledger) (a : Access) : Ledger :=
  ⟨l.all ++ [a], l.recent ++ [a]⟩

def touch (tag : String) (size : Nat) (l : Ledger) : Touch → Ledger
  | .read offset => l.enter ⟨.read, tag, offset, (replay size l.recent).getD offset.toNat 0⟩
  | .write offset value => l.enter ⟨.write, tag, offset, value⟩
  | .reset => { l with recent := [] }

def ofTouches (tag : String) (size : Nat) (touches : List Touch) : Ledger :=
  touches.foldl (touch tag size) ⟨[], []⟩

theorem replay_read (tag : String) (size : Nat) (l : Ledger) (offset : UInt16) :
    replay size (l.touch tag size (.read offset)).recent = replay size l.recent := by
  rw [touch, enter, replay, List.foldl_append]
  rfl

theorem replay_write (tag : String) (size : Nat) (l : Ledger) (offset : UInt16) (value : UInt8) :
    replay size (l.touch tag size (.write offset value)).recent =
      (replay size l.recent).setIfInBounds offset.toNat value := by
  rw [touch, enter, replay, List.foldl_append]
  rfl

end Ledger

namespace MappedBus

/-- What of a request gets to a device. A read goes to the first binding at its address, and a write
to all of them in front of the first that refuses it. -/
def reaches (bus : MappedBus) (id : Nat) : Request → List Touch
  | .read addr =>
    ((bus.reader? addr).toList.filter (·.device = id)).map fun b => .read (b.within addr)
  | .write addr value =>
    (((bus.writers addr).takeWhile
      fun b => bus.refusal? b.device (b.within addr) value = none).filter (·.device = id)).map
        fun b => .write (b.within addr) value
  | .readDevice other offset => if other = id then [.read offset] else []
  | .writeDevice other offset value =>
    if other = id ∧ bus.refusal? other offset value = none then [.write offset value] else []
  | .reset => [.reset]

def entries (bus : MappedBus) (tag : String) : List Access :=
  bus.log.toList.filter (·.tag = tag)

theorem entries_note (bus : MappedBus) (id : Nat) (kind : AccessKind) (offset : UInt16)
    (value : UInt8) (tag : String) :
    (bus.note id kind offset value).entries tag =
      if (bus.device? id).bind Device.tag? = some tag then
        bus.entries tag ++ [⟨kind, tag, offset, value⟩]
      else bus.entries tag := by
  rw [note]
  cases (bus.device? id).bind Device.tag? with
  | none => rfl
  | some other =>
    simp only [entries, Array.toList_push, List.filter_append, Option.some.injEq]
    by_cases htag : other = tag
    · simp [htag]
    · simp [htag]

structure Watched (bus : MappedBus) (id : Nat) (tag : String) (size : Nat) : Prop where
  shape_eq : bus.shape? id = some (.ram (some (.recording tag)), size)
  alone (other : Nat) : (bus.device? other).bind Device.tag? = some tag → other = id

variable {start bus : MappedBus} {id size : Nat} {tag : String} {ledger : Ledger}

theorem Watched.tag?_iff (hw : start.Watched id tag size) (h : SameLayout start bus) (other : Nat) :
    (bus.device? other).bind Device.tag? = some tag ↔ other = id := by
  rw [tag?_of_shape, h.shape_eq, ← tag?_of_shape]
  constructor
  · exact hw.alone other
  · rintro rfl
    rw [tag?_of_shape, hw.shape_eq]
    rfl

theorem Watched.entries_note (hw : start.Watched id tag size) (h : SameLayout start bus)
    (other : Nat) (kind : AccessKind) (offset : UInt16) (value : UInt8) :
    (bus.note other kind offset value).entries tag =
      if other = id then bus.entries tag ++ [⟨kind, tag, offset, value⟩]
      else bus.entries tag := by
  rw [MappedBus.entries_note]
  exact if_congr (hw.tag?_iff h other) rfl rfl

structure Observed (start : MappedBus) (id : Nat) (tag : String) (size : Nat) (bus : MappedBus)
    (ledger : Ledger) : Prop where
  layout : SameLayout start bus
  entries_eq : bus.entries tag = start.entries tag ++ ledger.all
  contents_eq : (bus.device? id).map Device.contents = some (Ledger.replay size ledger.recent)

namespace Observed

/-- What changes neither the log nor the contents, and touches nothing, is not noticed. -/
theorem of_eq {next : MappedBus} (h : Observed start id tag size bus ledger)
    (hlayout : SameLayout bus next) (hlog : next.entries tag = bus.entries tag)
    (hdevice : next.device? id = bus.device? id) : Observed start id tag size next ledger :=
  ⟨h.layout.trans hlayout, hlog.trans h.entries_eq, hdevice ▸ h.contents_eq⟩

section Requests

variable (hw : start.Watched id tag size)

include hw

theorem readDevice (h : Observed start id tag size bus ledger) (other : Nat) (offset : UInt16) :
    Observed start id tag size (bus.readDevice other offset).2
      ((if other = id then [.read offset] else []).foldl (Ledger.touch tag size) ledger) := by
  have hlog := hw.entries_note h.layout other .read offset (bus.peek other offset)
  by_cases hid : other = id
  · subst hid
    obtain ⟨d, hd, hcontents⟩ := Option.map_eq_some_iff.1 h.contents_eq
    have hvalue : bus.peek other offset =
        (Ledger.replay size ledger.recent).getD offset.toNat 0 := by
      rw [peek, hd, ← hcontents]
      rfl
    rw [if_pos rfl] at hlog ⊢
    refine ⟨h.layout.trans (sameLayout_note ..), ?_, ?_⟩
    · rw [MappedBus.readDevice, hlog, h.entries_eq, hvalue, List.append_assoc]
      rfl
    · rw [MappedBus.readDevice, device?_note, h.contents_eq]
      exact congrArg some (Ledger.replay_read ..).symm
  · rw [if_neg hid] at hlog ⊢
    exact h.of_eq (sameLayout_note ..) hlog (device?_note ..)

theorem stored (h : Observed start id tag size bus ledger) (other : Nat) (offset : UInt16)
    (value : UInt8) :
    Observed start id tag size ((bus.poke other offset value).note other .write offset value)
      ((if other = id then [.write offset value] else []).foldl (Ledger.touch tag size)
        ledger) := by
  have hpoke := sameLayout_poke bus other offset value
  have hlog := hw.entries_note (h.layout.trans hpoke) other .write offset value
  rw [show (bus.poke other offset value).entries tag = bus.entries tag from rfl] at hlog
  by_cases hid : other = id
  · subst hid
    obtain ⟨d, hd, hcontents⟩ := Option.map_eq_some_iff.1 h.contents_eq
    rw [if_pos rfl] at hlog ⊢
    refine ⟨(h.layout.trans hpoke).trans (sameLayout_note ..), ?_, ?_⟩
    · rw [hlog, h.entries_eq, List.append_assoc]
      rfl
    · rw [device?_note, device?_poke, if_pos rfl, hd, List.foldl_cons, List.foldl_nil,
        Ledger.replay_write, ← hcontents]
      rfl
  · rw [if_neg hid] at hlog ⊢
    refine h.of_eq (hpoke.trans (sameLayout_note ..)) hlog ?_
    rw [device?_note, device?_poke, if_neg hid]

theorem writeThrough (h : Observed start id tag size bus ledger) (addr : UInt16) (value : UInt8)
    (bindings : List Binding) :
    Observed start id tag size (writeThrough addr value bindings bus).2
      ((((bindings.takeWhile
        fun b => start.refusal? b.device (b.within addr) value = none).filter (·.device = id)).map
          fun b => .write (b.within addr) value).foldl (Ledger.touch tag size) ledger) := by
  -- what a device refuses stays the same on the way, so `start` tells where the write ends
  induction bindings generalizing bus ledger with
  | nil => exact h
  | cons b bindings ih =>
    rw [MappedBus.writeThrough, writeDevice, h.layout.refusal?_eq]
    cases hrefusal : start.refusal? b.device (b.within addr) value with
    | some cause =>
      rw [List.takeWhile_cons_of_neg (by simp [hrefusal])]
      exact h
    | none =>
      have hstored := h.stored hw b.device (b.within addr) value
      rw [List.takeWhile_cons_of_pos (by simp [hrefusal])]
      by_cases hid : b.device = id
      · rw [if_pos hid] at hstored
        rw [List.filter_cons_of_pos (by simp [hid])]
        exact ih hstored
      · rw [if_neg hid] at hstored
        rw [List.filter_cons_of_neg (by simp [hid])]
        exact ih hstored

theorem reset (h : Observed start id tag size bus ledger) :
    Observed start id tag size bus.reset (ledger.touch tag size .reset) := by
  refine ⟨h.layout.trans ((SameWiring.refl bus).reset).sameLayout, h.entries_eq, ?_⟩
  have hshape : bus.shape? id = some (.ram (some (.recording tag)), size) := by
    rw [h.layout.shape_eq, hw.shape_eq]
  obtain ⟨⟨contents, kind⟩, hd, hkind⟩ := Option.map_eq_some_iff.1 hshape
  cases hkind
  show ((bus.devices.map Device.reset)[id]?).map Device.contents = _
  rw [Array.getElem?_map, show bus.devices[id]? = _ from hd]
  rfl

/-- What a request leaves in the log is what of it gets to the RAM. -/
theorem request (h : Observed start id tag size bus ledger) (r : Request) :
    Observed start id tag size (bus.request r).2
      ((start.reaches id r).foldl (Ledger.touch tag size) ledger) := by
  cases r with
  | read addr =>
    rw [reaches, ← h.layout.reader?_eq]
    show Observed start id tag size (Bus.read addr bus).2 _
    rw [read_match]
    cases bus.reader? addr with
    | none => exact h
    | some b =>
      have hread := h.readDevice hw b.device (b.within addr)
      by_cases hid : b.device = id
      · rw [if_pos hid] at hread
        rw [Option.toList_some, List.filter_cons_of_pos (by simp [hid])]
        exact hread
      · rw [if_neg hid] at hread
        rw [Option.toList_some, List.filter_cons_of_neg (by simp [hid])]
        exact hread
  | write addr value =>
    have hwriters : bus.writers addr = start.writers addr := by
      rw [writers, writers, h.layout.bindings_eq]
    show Observed start id tag size (Bus.write addr value bus).2 _
    rw [reaches, write_match, hwriters]
    split
    · rename_i hnone
      rw [hnone]
      exact h
    · exact h.writeThrough hw addr value _
  | readDevice other offset => exact h.readDevice hw other offset
  | writeDevice other offset value =>
    show Observed start id tag size (bus.writeDevice other offset value).2 _
    rw [reaches, writeDevice, h.layout.refusal?_eq]
    cases hrefusal : start.refusal? other offset value with
    | some cause =>
      rw [if_neg (by simp)]
      exact h
    | none =>
      simp only [and_true]
      exact h.stored hw other offset value
  | reset => exact h.reset hw

theorem serve (h : Observed start id tag size bus ledger) (requests : List Request) :
    Observed start id tag size (bus.serve requests)
      ((requests.flatMap (start.reaches id)).foldl (Ledger.touch tag size) ledger) := by
  induction requests generalizing bus ledger with
  | nil => exact h
  | cons r requests ih =>
    rw [List.flatMap_cons, List.foldl_append]
    exact ih (h.request hw r)

end Requests

end Observed

end MappedBus

def Device.unobserved (d : Device) : Device :=
  match d.kind with
  | .rom => d
  | .ram _ => { d with kind := .ram none }

theorem Device.contents_unobserved (d : Device) : d.unobserved.contents = d.contents := by
  obtain ⟨contents, kind⟩ := d
  cases kind <;> rfl

theorem Device.unobserved_unobserved (d : Device) : d.unobserved.unobserved = d.unobserved := by
  obtain ⟨contents, kind⟩ := d
  cases kind <;> rfl

namespace MappedBus

def unobserved (bus : MappedBus) (id : Nat) : MappedBus :=
  { bus with
    devices := bus.devices.modify id Device.unobserved
    attached := by simpa using bus.attached }

theorem imperceptible_unobserved : Imperceptible Device.unobserved where
  get_eq d := by
    funext offset
    rw [Device.get, Device.get, d.contents_unobserved]
  refusal_eq := by
    rintro ⟨contents, kind⟩
    cases kind <;> rfl
  set_eq := by
    rintro ⟨contents, kind⟩ offset value
    cases kind <;> rfl
  reset_eq := by
    rintro ⟨contents, kind⟩
    cases kind <;> rfl

theorem sameUpTo_unobserved (bus : MappedBus) (id : Nat) :
    SameUpTo Device.unobserved bus (bus.unobserved id) := by
  refine ⟨?_, rfl⟩
  apply Array.ext_getElem?
  intro i
  rw [Array.getElem?_map, Array.getElem?_map, unobserved, Array.getElem?_modify]
  split
  · rw [Option.map_map]
    congr 1
    funext d
    exact d.unobserved_unobserved
  · rfl

theorem SameUpTo.contents_eq {bus next : MappedBus} (h : SameUpTo Device.unobserved bus next)
    (id : Nat) :
    (next.device? id).map Device.contents = (bus.device? id).map Device.contents := by
  have hcontents (b : MappedBus) : (b.device? id).map Device.contents =
      ((b.device? id).map Device.unobserved).map Device.contents := by
    rw [Option.map_map]
    congr 1
    funext d
    exact d.contents_unobserved.symm
  rw [hcontents, hcontents, h.device?_eq]

end MappedBus

namespace Machine

open MappedBus

/-- The log of a cleared RAM that is observed is a faithful history. Through all turns that a
machine and others take on the bus, the observer records exactly what gets to the RAM, in order, and
for a read what the writes since the last reset make of its offset. These writes make the contents.
Without the observer all is answered alike, and registers and memory are left alike. -/
theorem observer_faithful (m : Machine MappedBus) (id size : Nat) (tag : String)
    (hram : m.bus.device? id = some (.ram size (some (.recording tag))))
    (halone : ∀ other d, m.bus.device? other = some d → d.tag? = some tag → other = id)
    (turns : List Turn) :
    ((m.follow turns).bus.entries tag = m.bus.entries tag ++
        (Ledger.ofTouches tag size ((m.asked turns).flatMap (m.bus.reaches id))).all ∧
      ((m.follow turns).bus.device? id).map Device.contents = some (Ledger.replay size
        (Ledger.ofTouches tag size ((m.asked turns).flatMap (m.bus.reaches id))).recent)) ∧
    answers { m with bus := m.bus.unobserved id } turns = m.answers turns ∧
    (follow { m with bus := m.bus.unobserved id } turns).regs = (m.follow turns).regs ∧
    ∀ other, ((follow { m with bus := m.bus.unobserved id } turns).bus.device? other).map
        Device.contents = ((m.follow turns).bus.device? other).map Device.contents := by
  have hwatched : m.bus.Watched id tag size := by
    refine ⟨?_, fun other h => ?_⟩
    · rw [shape?, hram]
      exact congrArg some (congrArg _ Array.size_replicate)
    · obtain ⟨d, hd, htag⟩ := Option.bind_eq_some_iff.1 h
      exact halone other d hd htag
  have hstart : Observed m.bus id tag size m.bus ⟨[], []⟩ := by
    refine ⟨.refl _, (List.append_nil _).symm, ?_⟩
    rw [hram]
    rfl
  have hlast := hstart.serve hwatched (m.asked turns)
  rw [serve_asked] at hlast
  obtain ⟨hanswers, hregs, hbus⟩ := follow_alike (m := m)
    (k := { m with bus := m.bus.unobserved id }) imperceptible_unobserved rfl
    (sameUpTo_unobserved m.bus id) turns
  exact ⟨⟨hlast.entries_eq, hlast.contents_eq⟩, hanswers.symm, hregs.symm, hbus.contents_eq⟩

def twoWindows : Machine MappedBus where
  regs := { Registers.initial with pc := 0x0010 }
  bus := ((MappedBus.empty.map (.ram 4 (some (.recording "ram"))) 0x0000).bind
    ⟨0, 0x0000, 0x0008, 0x0002⟩ (by decide)).map (.rom #[0xE6, 0x02]) 0x0010

def twoWindowsTurns : List Turn :=
  [.ask (.write 0x0000 9), .ask .reset, .step, .ask (.read 0x0003)]

/-- The refused write is recorded, since the first window took it, but the reset has undone it. -/
theorem observer_faithful_twoWindows :
    (twoWindows.follow twoWindowsTurns).bus.entries "ram" =
        [⟨.write, "ram", 0, 9⟩, ⟨.read, "ram", 2, 0⟩, ⟨.write, "ram", 2, 1⟩,
          ⟨.write, "ram", 0, 1⟩, ⟨.read, "ram", 3, 0⟩] ∧
      ((twoWindows.follow twoWindowsTurns).bus.device? 0).map Device.contents =
        some #[1, 0, 1, 0] := by
  have halone : ∀ other d, twoWindows.bus.device? other = some d → d.tag? = some "ram" →
      other = 0 := by
    intro other d hd htag
    match other with
    | 0 => rfl
    | 1 =>
      cases hd
      cases htag
    | other + 2 =>
      have hnone : twoWindows.bus.device? (other + 2) = none :=
        Array.getElem?_eq_none (Nat.le_add_left 2 other)
      cases hnone.symm.trans hd
  obtain ⟨⟨hentries, hcontents⟩, -⟩ :=
    observer_faithful twoWindows 0 4 "ram" rfl halone twoWindowsTurns
  have hledger : Ledger.ofTouches "ram" 4
      ((twoWindows.asked twoWindowsTurns).flatMap (twoWindows.bus.reaches 0)) =
      ⟨[⟨.write, "ram", 0, 9⟩, ⟨.read, "ram", 2, 0⟩, ⟨.write, "ram", 2, 1⟩,
          ⟨.write, "ram", 0, 1⟩, ⟨.read, "ram", 3, 0⟩],
        [⟨.read, "ram", 2, 0⟩, ⟨.write, "ram", 2, 1⟩, ⟨.write, "ram", 0, 1⟩,
          ⟨.read, "ram", 3, 0⟩]⟩ := by
    decide +kernel
  rw [hledger] at hentries hcontents
  exact ⟨hentries, hcontents⟩

end Machine

end M6502
