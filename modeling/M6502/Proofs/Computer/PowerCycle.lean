import M6502.Proofs.Computer.History

/-!
# Power cycles

A computer is wired of ROMs and cleared RAMs. Whatever happens to it then, a
reset of its devices and of its processor brings it back to where a reset
right after the wiring would have left it. Only the records of its observers
tell them apart.
-/

set_option autoImplicit false

namespace M6502

inductive Part where
  | rom (contents : Array UInt8)
  | ram (size : Nat) (observer : Option Observer)

def Part.device : Part → Device
  | .rom contents => .rom contents
  | .ram size observer => .ram size observer

theorem Part.reset_device (p : Part) : p.device.reset = p.device := by
  cases p with
  | rom contents => rfl
  | ram size observer => simp [device, Device.ram, Device.reset, Device.size]

namespace MappedBus

def Cleared (bus : MappedBus) : Prop :=
  bus.devices.map Device.reset = bus.devices

theorem cleared_empty : empty.Cleared :=
  Array.map_empty

theorem Cleared.of_sameButLog {bus next : MappedBus} (h : bus.Cleared) (hs : SameButLog bus next) :
    next.Cleared := by
  rw [Cleared, hs.devices_eq]
  exact h

theorem Cleared.attach {bus : MappedBus} (h : bus.Cleared) (p : Part) :
    (bus.attach p.device).Cleared := by
  show (bus.devices.push p.device).map Device.reset = bus.devices.push p.device
  rw [Array.map_push, p.reset_device, h]

theorem Cleared.mapCartridge {bus : MappedBus} (h : bus.Cleared) (image : Array UInt8) :
    (bus.mapCartridge image).Cleared := by
  have hmapped := h.attach (.rom image)
  rw [MappedBus.mapCartridge]
  split <;> exact hmapped

/-- A reset leaves the devices as any that has the same wiring and is cleared. -/
theorem SameWiring.reset_eq {bus next : MappedBus} (h : SameWiring bus next) (hc : bus.Cleared) :
    SameButLog bus next.reset :=
  ⟨h.cleared_eq.trans hc, h.bindings_eq⟩

end MappedBus

namespace Computer

inductive Wire where
  | attach (p : Part)
  | map (p : Part) (start : UInt16)
  | connect (b : Binding)
  | mapCartridge (image : Array UInt8)
  | load (image : Array UInt8) (offset : UInt16)

def wire (c : Computer) : Wire → Computer
  | .attach p => { c with bus := c.bus.attach p.device }
  | .map p start => { c with bus := c.bus.map p.device start }
  | .connect b =>
    match c.bus.connect b with
    | .ok bus => { c with bus := bus }
    | .error _ => c
  | .mapCartridge image => { c with bus := c.bus.mapCartridge image }
  | .load image offset => c.load image offset

def wired (c : Computer) : List Wire → Computer
  | [] => c
  | w :: wires => (c.wire w).wired wires

theorem bus_reset_eq (c : Computer) : MappedBus.SameButLog c.bus c.reset.bus := by
  have hword {bus next : MappedBus} (h : MappedBus.SameButLog bus next) (addr : UInt16) :
      MappedBus.SameButLog bus (Bus.readWord addr next).2 :=
    (h.of_read addr).of_read (addr + 1)
  rw [reset_eq]
  dsimp only
  exact hword (hword (hword ⟨rfl, rfl⟩ nmiVector) resetVector) irqVector

theorem cleared_wire {c : Computer} (h : c.bus.Cleared) (w : Wire) : (c.wire w).bus.Cleared := by
  cases w with
  | attach p => exact h.attach p
  | map p start => exact h.attach p
  | connect b =>
    rw [wire, MappedBus.connect]
    split
    · rename_i bus hbus
      split at hbus <;> cases hbus
      exact h
    · exact h
  | mapCartridge image => exact h.mapCartridge image
  | load image offset =>
    have hmapped : (c.bus.map (.rom image) offset).Cleared := h.attach (.rom image)
    rw [wire, load]
    exact hmapped.of_sameButLog (bus_reset_eq { c with bus := c.bus.map (.rom image) offset })

theorem cleared_wired {c : Computer} (h : c.bus.Cleared) (wires : List Wire) :
    (c.wired wires).bus.Cleared := by
  induction wires generalizing c with
  | nil => exact h
  | cons w wires ih => exact ih (cleared_wire h w)

def powerCycled (c : Computer) : Computer :=
  reset { c with bus := c.bus.reset }

/-- Where the devices are cleared, a power cycle undoes any history. -/
theorem powerCycled_beside {c d : Computer} (hc : c.bus.Cleared) (h : SameWiring c d) :
    Beside MappedBus.SameButLog c.reset d.powerCycled :=
  reset_beside MappedBus.SameButLog.lockstep h.settings_eq.symm (h.bus.reset_eq hc)

/-- Switched off and on after any history, a computer is as it was when it was wired and reset, the
records of its observers apart. From then on it replies alike to whatever comes, and is left
alike. -/
theorem power_cycle_forgets (settings : Settings) (wires : List Wire) (history later : List Event) :
    Beside MappedBus.SameButLog ((new settings).wired wires).reset
      (((new settings).wired wires).follow history).powerCycled ∧
    ((new settings).wired wires).reset.replies later =
      (((new settings).wired wires).follow history).powerCycled.replies later ∧
    Beside MappedBus.SameButLog (((new settings).wired wires).reset.follow later)
      ((((new settings).wired wires).follow history).powerCycled.follow later) := by
  have hcleared : ((new settings).wired wires).bus.Cleared :=
    cleared_wired MappedBus.cleared_empty wires
  have hwiring := (invariant_sameWiring _).follow history (.refl ((new settings).wired wires))
  have hsame := powerCycled_beside hcleared hwiring
  exact ⟨hsame, bisimulation_sameButLog.follow later hsame⟩

end Computer

end M6502
