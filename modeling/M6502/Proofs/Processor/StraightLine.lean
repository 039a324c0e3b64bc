import M6502.Proofs.Processor.Runs

/-!
# Straight-line code

Instructions that neither transfer control nor halt are carried out one
behind the other. What they come to is the fold of their outcomes over the
registers and the memory, where no bus is left to reason about. Such code
runs to its end when it writes only to cells outside of itself.
-/

set_option autoImplicit false

namespace M6502.StraightLine

structure State where
  regs : Registers
  mem : UInt16 → UInt8

namespace State

def of {β : Type} [Bus β] (m : Machine β) : State :=
  ⟨m.regs, Bus.peek m.bus⟩

def take (s : State) (c : Encoding × UInt16) : State :=
  ⟨(c.1.outcome s.regs s.mem c.2).regs,
    Outcome.stored (c.1.outcome s.regs s.mem c.2).stores s.mem⟩

def follow (s : State) (code : List (Encoding × UInt16)) : State :=
  code.foldl take s

theorem follow_append (s : State) (front back : List (Encoding × UInt16)) :
    s.follow (front ++ back) = (s.follow front).follow back :=
  List.foldl_append

end State

def bytes (code : List (Encoding × UInt16)) : List UInt8 :=
  code.flatMap fun c => c.1.bytes c.2

theorem bytes_cons (c : Encoding × UInt16) (code : List (Encoding × UInt16)) :
    bytes (c :: code) = bytes [c] ++ bytes code := by
  rw [bytes, bytes, bytes, List.flatMap_cons, List.flatMap_singleton]

theorem length_bytes_pos {code : List (Encoding × UInt16)} (h : code ≠ []) :
    0 < (bytes code).length := by
  obtain ⟨c, rest, rfl⟩ := List.exists_cons_of_ne_nil h
  have hbytes : bytes [c] = c.1.bytes c.2 := List.flatMap_singleton ..
  rw [bytes_cons, List.length_append, hbytes, Encoding.length_bytes]
  exact Nat.add_pos_left c.1.mode.size_pos _

structure Plain (own : UInt16 → Prop) (c : Encoding × UInt16) : Prop where
  sequential : c.1.mnemonic.transfersControl = false
  running : c.1.mnemonic ≠ .brk
  stores : ∀ regs mem, ∀ s ∈ (c.1.outcome regs mem c.2).stores, own s.addr

variable {own : UInt16 → Prop} {c : Encoding × UInt16} {code : List (Encoding × UInt16)}

theorem Plain.of {op : Mnemonic} {mode : AddressingMode} {v : UInt16}
    {hd : (Encoding.ofParts? op mode).isSome = true} (ht : op.transfersControl = false)
    (hbrk : op ≠ .brk)
    (hs : ∀ regs mem, ∀ s ∈ (op.action.outcome mode regs mem v).stores, own s.addr) :
    Plain own (.of op mode hd, v) where
  sequential := by rwa [Encoding.mnemonic_of]
  running := by rwa [Encoding.mnemonic_of]
  stores regs mem := by
    rw [Encoding.outcome, Encoding.mnemonic_of, Encoding.mode_of]
    exact hs regs.opened mem

theorem Plain.mem_take (h : Plain own c) (s : State) {a : UInt16} (ha : ¬ own a) :
    (s.take c).mem a = s.mem a := by
  refine Outcome.stored_of_ne (fun t ht => ?_) s.mem
  rintro rfl
  exact ha (h.stores _ _ t ht)

theorem mem_follow (h : ∀ c ∈ code, Plain own c) (s : State) {a : UInt16} (ha : ¬ own a) :
    (s.follow code).mem a = s.mem a := by
  induction code generalizing s with
  | nil => rfl
  | cons c code ih =>
    rw [List.forall_mem_cons] at h
    exact (ih h.2 (s.take c)).trans (h.1.mem_take s ha)

variable {β : Type} [Bus β] [Storage β] {m : Machine β}

structure Passes (code : List (Encoding × UInt16)) (m next : Machine β) : Prop where
  runs : Runs code.length m next
  state_eq : State.of next = (State.of m).follow code
  pc_eq : next.regs.pc = m.regs.pc + UInt16.ofNat (bytes code).length
  cell_eq : Storage.Cell next.bus = Storage.Cell m.bus

theorem Passes.cons {mid last : Machine β} (h : Passes [c] m mid) (h' : Passes code mid last) :
    Passes (c :: code) m last := by
  refine ⟨?_, ?_, ?_, h'.cell_eq.trans h.cell_eq⟩
  · have hruns := h.runs.trans h'.runs
    rwa [List.length_singleton, Nat.add_comm] at hruns
  · rw [h'.state_eq, h.state_eq]
    rfl
  · rw [h'.pc_eq, h.pc_eq, bytes_cons c code, List.length_append, UInt16.ofNat_add,
      UInt16.add_assoc]

theorem passes_one (hplain : Plain own c) (hshows : Bus.Shows m.bus m.regs.pc (bytes [c]))
    (hcells : ∀ a, own a → Storage.Cell m.bus a) : ∃ next, Passes [c] m next := by
  have hbytes : bytes [c] = c.1.bytes c.2 := List.flatMap_singleton ..
  rw [hbytes] at hshows
  obtain ⟨next, hstep, hpeek, hcell⟩ := step_cells hshows fun s hs =>
    hcells _ (hplain.stores _ _ s hs)
  have hhalted : (c.1.outcome m.regs (Bus.peek m.bus) c.2).regs.halted = false :=
    Action.halted_outcome (mt Mnemonic.action_eq_halt.1 hplain.running) ..
  refine ⟨_, .step hstep hhalted (.refl _), congrArg (State.mk _) hpeek, ?_, hcell⟩
  rw [hbytes, Encoding.length_bytes]
  exact Mnemonic.pc_sequential c.1.suited hplain.sequential

/-- Code that shows on the bus, and that writes to cells outside of itself, runs to its end. -/
theorem passes (hplain : ∀ c ∈ code, Plain own c)
    (hshows : Bus.Shows m.bus m.regs.pc (bytes code))
    (hcells : ∀ a, own a → Storage.Cell m.bus a)
    (hapart : ∀ i < (bytes code).length, ¬ own (m.regs.pc + UInt16.ofNat i)) :
    ∃ next, Passes code m next := by
  induction code generalizing m with
  | nil => exact ⟨m, .refl m, rfl, (UInt16.add_zero _).symm, rfl⟩
  | cons c code ih =>
    rw [bytes_cons c code] at hshows hapart
    rw [List.forall_mem_cons] at hplain
    obtain ⟨hfirst, hrest⟩ := Bus.shows_append.1 hshows
    obtain ⟨mid, h⟩ := passes_one hplain.1 hfirst hcells
    have hafter (i : Nat) (hi : i < (bytes code).length) :
        ¬ own (mid.regs.pc + UInt16.ofNat i) := by
      rw [h.pc_eq, UInt16.add_assoc, ← UInt16.ofNat_add]
      exact hapart _ (by rw [List.length_append]; omega)
    have hmem (a : UInt16) (ha : ¬ own a) : Bus.peek mid.bus a = Bus.peek m.bus a :=
      (congrFun (congrArg State.mem h.state_eq) a).trans (hplain.1.mem_take (State.of m) ha)
    rw [← h.pc_eq] at hrest
    obtain ⟨last, h'⟩ := ih hplain.2 (hrest.keep fun i hi => hmem _ (hafter i hi))
      (fun a ha => h.cell_eq ▸ hcells a ha) hafter
    exact ⟨last, h.cons h'⟩

end M6502.StraightLine
