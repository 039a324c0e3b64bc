import M6502.Proofs.Bus.Aliasing

/-!
# The effect of a write

A write goes to the places of all covering bindings, up to the first that
refuses it. Whether it is accepted, with what error it ends and what it has
changed by then can be read off the bindings and the devices behind them.
-/

set_option autoImplicit false

namespace M6502

namespace MappedBus

def Takes (bus : MappedBus) (p : Place) : Prop :=
  ∃ observer size, bus.shape? p.1 = some (.ram observer, size) ∧ p.2.toNat < size

/-- How a place refuses a value: it lies in a ROM, or behind the end of a RAM. -/
inductive Refuses (bus : MappedBus) (p : Place) (value : UInt8) : BusError → Prop where
  | rom {size : Nat} (h : bus.shape? p.1 = some (.rom, size)) :
    Refuses bus p value (.readOnly p.2 value)
  | ram {observer : Option Observer} {size : Nat}
    (h : bus.shape? p.1 = some (.ram observer, size)) (hend : size ≤ p.2.toNat) :
    Refuses bus p value (.outsideDevice p.2 size)

variable {bus next : MappedBus} {p : Place} {addr : UInt16} {value : UInt8} {cause : BusError}

theorem takes_iff : bus.Takes p ↔ bus.refusal? p.1 p.2 value = none := by
  rw [refusal?_eq, Takes]
  cases bus.shape? p.1 with
  | none => simp
  | some s =>
    obtain ⟨kind, size⟩ := s
    cases kind with
    | rom => simp
    | ram observer => simp

theorem Refuses.refusal?_eq (h : bus.Refuses p value cause) :
    bus.refusal? p.1 p.2 value = some cause := by
  rw [MappedBus.refusal?_eq]
  cases h with
  | rom hshape => simp only [hshape]
  | ram hshape hend => simp only [hshape, if_neg (Nat.not_lt_of_le hend)]

theorem Refuses.of_sameLayout (h : bus.Refuses p value cause) (hs : SameLayout bus next) :
    next.Refuses p value cause := by
  cases h with
  | rom hshape => exact .rom (hs.shape_eq ▸ hshape)
  | ram hshape hend => exact .ram (hs.shape_eq ▸ hshape) hend

/-- A place in a device that there is takes every value, or refuses each with an error. -/
theorem takes_or_refuses (hp : p.1 < bus.devices.size) (value : UInt8) :
    bus.Takes p ∨ ∃ cause, bus.Refuses p value cause := by
  have hdevice : bus.device? p.1 = some bus.devices[p.1] := Array.getElem?_eq_getElem hp
  have hshape : bus.shape? p.1 = some (bus.devices[p.1].kind, bus.devices[p.1].size) := by
    rw [shape?, hdevice]
    rfl
  cases hkind : bus.devices[p.1].kind with
  | rom =>
    rw [hkind] at hshape
    exact .inr ⟨_, .rom hshape⟩
  | ram observer =>
    rw [hkind] at hshape
    rcases Nat.lt_or_ge p.2.toNat bus.devices[p.1].size with hlt | hge
    · exact .inl ⟨observer, _, hshape, hlt⟩
    · exact .inr ⟨_, .ram hshape hge⟩

/-- Places that all take a value, or a first one that refuses it. -/
theorem takes_or_first_refuses (value : UInt8) {places : List Place}
    (h : ∀ p ∈ places, p.1 < bus.devices.size) :
    (∀ p ∈ places, bus.Takes p) ∨ ∃ front p back cause, places = front ++ p :: back ∧
      (∀ q ∈ front, bus.Takes q) ∧ bus.Refuses p value cause := by
  induction places with
  | nil => exact .inl (List.forall_mem_nil _)
  | cons p places ih =>
    rw [List.forall_mem_cons] at h
    rcases takes_or_refuses h.1 value with htakes | ⟨cause, hrefuses⟩
    · rcases ih h.2 with hall | ⟨front, q, back, cause, rfl, hfront, hrefuses⟩
      · exact .inl (List.forall_mem_cons.2 ⟨htakes, hall⟩)
      · exact .inr ⟨p :: front, q, back, cause, rfl, List.forall_mem_cons.2 ⟨htakes, hfront⟩,
          hrefuses⟩
    · exact .inr ⟨[], p, places, cause, rfl, List.forall_mem_nil _, hrefuses⟩

theorem lt_size_of_mem_writePlaces (hp : p ∈ bus.writePlaces addr) : p.1 < bus.devices.size := by
  obtain ⟨b, hb, rfl⟩ := List.mem_map.1 hp
  exact bus.attached b (mem_writers.1 hb).1

instance (bus : MappedBus) (p : Place) : Decidable (bus.Takes p) :=
  decidable_of_iff (bus.refusal? p.1 p.2 0 = none) takes_iff.symm

def Accepts (bus : MappedBus) (addr : UInt16) : Prop :=
  bus.writePlaces addr ≠ [] ∧ ∀ p ∈ bus.writePlaces addr, bus.Takes p

instance (bus : MappedBus) (addr : UInt16) : Decidable (bus.Accepts addr) :=
  inferInstanceAs (Decidable (_ ∧ _))

theorem accepts_iff :
    (∃ next, Bus.write addr value bus = (.ok (), next)) ↔ bus.Accepts addr := by
  simp only [write_ok_iff, ← takes_iff, Accepts]

theorem SameLayout.accepts_eq (h : SameLayout bus next) : next.Accepts = bus.Accepts := by
  funext addr
  rw [Accepts, h.writePlaces_eq]
  simp only [Takes, h.shape_eq]
  rfl

/-- A write goes on behind places that take the value, once it stands there. -/
theorem writeThrough_takes (value : UInt8) {front : List Binding} (back : List Binding)
    (h : ∀ p ∈ front.map (·.place addr), bus.Takes p) :
    ∃ next, writeThrough addr value (front ++ back) bus = writeThrough addr value back next ∧
      Stored bus next (front.map (·.place addr)) value := by
  rw [List.forall_mem_map] at h
  exact writeThrough_append back fun b hb => takes_iff.1 (h b hb)

theorem writeThrough_refuses {b : Binding} (back : List Binding)
    (h : bus.Refuses (b.place addr) value cause) :
    writeThrough addr value (b :: back) bus = (.error cause, bus) := by
  have hrefusal : bus.refusal? b.device (b.within addr) value = some cause := h.refusal?_eq
  rw [writeThrough, writeDevice, hrefusal]

theorem write_takes (hne : bus.writePlaces addr ≠ [])
    (h : ∀ p ∈ bus.writePlaces addr, bus.Takes p) :
    (Bus.write addr value bus).1 = .ok () ∧
      Stored bus (Bus.write addr value bus).2 (bus.writePlaces addr) value := by
  obtain ⟨next, hwrite, hstored⟩ := writeThrough_takes value [] h
  rw [List.append_nil] at hwrite
  rw [write_eq, if_neg (mt List.map_eq_nil_iff.2 hne), hwrite]
  exact ⟨rfl, hstored⟩

theorem write_refuses {front back : List Place} (hsplit : bus.writePlaces addr = front ++ p :: back)
    (hfront : ∀ q ∈ front, bus.Takes q) (h : bus.Refuses p value cause) :
    (Bus.write addr value bus).1 = .error cause ∧
      Stored bus (Bus.write addr value bus).2 front value := by
  obtain ⟨before, rest, hbindings, rfl, hrest⟩ := List.map_eq_append_iff.1 hsplit
  obtain ⟨b, after, rfl, rfl, rfl⟩ := List.map_eq_cons_iff.1 hrest
  obtain ⟨next, hwrite, hstored⟩ := writeThrough_takes value (b :: after) hfront
  rw [writeThrough_refuses after (h.of_sameLayout hstored.layout)] at hwrite
  have hne : bus.writers addr ≠ [] := by
    rw [hbindings]
    exact List.append_ne_nil_of_right_ne_nil _ (List.cons_ne_nil _ _)
  rw [write_eq, if_neg hne, hbindings, hwrite]
  exact ⟨rfl, hstored⟩

/-- The exact effect of a write. Where nothing is bound it is refused and changes nothing. It is
accepted when it goes somewhere and all places take the value, which stands there afterwards. The
first place that refuses it ends it with its error, and then the value stands in the places before
that one. It comes to one of the three, and nothing else is ever different. -/
theorem write_effect (bus : MappedBus) (addr : UInt16) (value : UInt8) :
    let places := bus.writePlaces addr
    let answer := (Bus.write addr value bus).1
    let next := (Bus.write addr value bus).2
    (places = [] → answer = .error (.unmappedWrite addr value) ∧ next = bus) ∧
    (answer = .ok () ↔ places ≠ [] ∧ ∀ p ∈ places, bus.Takes p) ∧
    (answer = .ok () → Stored bus next places value) ∧
    (∀ front p back cause, places = front ++ p :: back → (∀ q ∈ front, bus.Takes q) →
      bus.Refuses p value cause → answer = .error cause ∧ Stored bus next front value) ∧
    ((∀ p ∈ places, bus.Takes p) ∨ ∃ front p back cause, places = front ++ p :: back ∧
      (∀ q ∈ front, bus.Takes q) ∧ bus.Refuses p value cause) := by
  intro places answer next
  have hunmapped (hnil : places = []) :
      Bus.write addr value bus = (.error (.unmappedWrite addr value), bus) := by
    rw [write_eq, if_pos (List.map_eq_nil_iff.1 hnil)]
  have hcases : (∀ p ∈ places, bus.Takes p) ∨ ∃ front p back cause, places = front ++ p :: back ∧
      (∀ q ∈ front, bus.Takes q) ∧ bus.Refuses p value cause :=
    takes_or_first_refuses value fun p => lt_size_of_mem_writePlaces
  have hok : answer = .ok () ↔ places ≠ [] ∧ ∀ p ∈ places, bus.Takes p := by
    constructor
    · intro hanswer
      refine ⟨fun hnil => ?_, ?_⟩
      · cases hanswer.symm.trans (congrArg Prod.fst (hunmapped hnil))
      · rcases hcases with hall | ⟨front, p, back, cause, hsplit, hfront, hrefuses⟩
        · exact hall
        · cases hanswer.symm.trans (write_refuses hsplit hfront hrefuses).1
    · rintro ⟨hne, hall⟩
      exact (write_takes hne hall).1
  refine ⟨fun hnil => ?_, hok, fun hanswer => ?_, fun front p back cause => ?_, hcases⟩
  · exact ⟨congrArg Prod.fst (hunmapped hnil), congrArg Prod.snd (hunmapped hnil)⟩
  · obtain ⟨hne, hall⟩ := hok.1 hanswer
    exact (write_takes hne hall).2
  · exact write_refuses

def blockedWindows : MappedBus where
  devices := #[.ram 0x20 none, .rom #[1, 2, 3], .ram 4 none]
  bindings := [⟨0, 0x0000, 0x0020, 0xFFF8⟩, ⟨2, 0x0010, 0x20000, 0x0010⟩,
    ⟨1, 0x0010, 0x0013, 0x0010⟩, ⟨2, 0x0000, 0x0100, 0x000E⟩]
  log := #[]
  attached := by decide

/-- The ROM refuses the value, which stands in two cells by then, and the last window does not get
it. -/
theorem write_effect_blocked :
    (Bus.write 0x0010 0x5A blockedWindows).1 = .error (.readOnly 0 0x5A) ∧
      (Bus.write 0x0010 0x5A blockedWindows).2.byte? 0 0x18 = some 0x5A ∧
      (Bus.write 0x0010 0x5A blockedWindows).2.byte? 2 0 = some 0x5A ∧
      (Bus.write 0x0010 0x5A blockedWindows).2.byte? 2 2 = some 0 := by
  obtain ⟨-, -, -, hrefused, -⟩ := write_effect blockedWindows 0x0010 0x5A
  have hsplit : blockedWindows.writePlaces 0x0010 = [(0, 0x18), (2, 0)] ++ (1, 0) :: [(2, 2)] := by
    decide
  have hfront : ∀ q ∈ [(0, 0x18), (2, 0)], blockedWindows.Takes q := by
    rw [List.forall_mem_cons, List.forall_mem_singleton]
    exact ⟨⟨none, 0x20, by decide, by decide⟩, ⟨none, 4, by decide, by decide⟩⟩
  have hrom : blockedWindows.shape? 1 = some (.rom, 3) := by
    decide
  obtain ⟨hanswer, hstored⟩ := hrefused _ (1, 0) _ _ hsplit hfront (.rom hrom)
  refine ⟨hanswer, ?_, ?_, ?_⟩
  · rw [hstored.byte?_eq, if_pos (by decide)]
  · rw [hstored.byte?_eq, if_pos (by decide)]
  · rw [hstored.byte?_eq, if_neg (by decide)]
    decide

end MappedBus

end M6502
