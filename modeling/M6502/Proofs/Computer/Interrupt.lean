import M6502.Proofs.Bus.Aliasing
import M6502.Proofs.Computer.Running
import M6502.Proofs.Processor.Nesting

/-!
# Interrupts and their return

An interrupt leaves the program counter and the status on the stack, and the
return from it takes them back in the opposite order. What lies between makes
no difference as long as it brings the stack pointer back and leaves the
pushed bytes alone. The same holds of a status that a program saves itself.
-/

set_option autoImplicit false

namespace M6502

def Status.restored (s : Status) : Status :=
  { s with brk := false, unused := true }

theorem Status.pulled_pushed (s : Status) (brk : Bool) :
    Status.pulled (s.pushed brk) = s.restored := by
  rw [pulled, pushed, ofByte_toByte]
  rfl

namespace MappedBus

/-- Every address of the stack leads to one place, in a RAM, and no other address of the stack leads
there. Addresses outside of the stack may. -/
structure StackRam (bus : MappedBus) : Prop where
  once (s : UInt8) : ∃ id offset observer size, bus.writePlaces (stackCell s) = [(id, offset)] ∧
    bus.shape? id = some (.ram observer, size) ∧ offset.toNat < size
  apart {s t : UInt8} (h : bus.writePlaces (stackCell s) = bus.writePlaces (stackCell t)) : s = t

variable {bus next : MappedBus}

theorem SameLayout.stackRam (h : SameLayout bus next) (hstack : bus.StackRam) :
    next.StackRam := by
  constructor
  · rw [h.writePlaces_eq, h.shape_eq]
    exact hstack.once
  · rw [h.writePlaces_eq]
    exact hstack.apart

theorem StackRam.aliased_iff (h : bus.StackRam) {s t : UInt8} :
    bus.Aliased (stackCell s) (stackCell t) ↔ s = t := by
  obtain ⟨i, p, -, -, hs, -⟩ := h.once s
  obtain ⟨j, q, -, -, ht, -⟩ := h.once t
  have hplaces : bus.Aliased (stackCell s) (stackCell t) ↔ (j, q) = (i, p) := by
    rw [Aliased, readPlace?_eq_head?, hs, ht]
    simp
  rw [hplaces]
  constructor
  · intro heq
    rw [heq, ← hs] at ht
    exact h.apart ht.symm
  · rintro rfl
    rw [hs] at ht
    exact (List.cons.inj ht).1.symm

/-- A RAM that is bound to the whole stack, where nothing else is bound, is such a stack. -/
theorem stackRam_of_writers {b : Binding} (hwriters : ∀ s, bus.writers (stackCell s) = [b])
    {observer : Option Observer} {size : Nat}
    (hshape : bus.shape? b.device = some (.ram observer, size))
    (hin : ∀ s, (b.within (stackCell s)).toNat < size) : bus.StackRam where
  once s := ⟨b.device, b.within (stackCell s), observer, size, by rw [writePlaces, hwriters]; rfl,
    hshape, hin s⟩
  apart {s t} h := by
    rw [writePlaces, hwriters, writePlaces, hwriters] at h
    have hwithin := congrArg Prod.snd (List.cons.inj h).1
    exact stackCell_inj.1 ((UInt16.sub_left_inj b.offset).1 hwithin)

/-- A byte that is written to the stack shows there, and the others stay. -/
theorem StackRam.write (h : bus.StackRam) (s : UInt8) (value : UInt8) :
    ∃ next, Bus.write (stackCell s) value bus = (.ok (), next) ∧ next.StackRam ∧
      ∀ t, Bus.peek next (stackCell t) =
        if s = t then value else Bus.peek bus (stackCell t) := by
  obtain ⟨id, offset, observer, size, hplaces, hshape, hin⟩ := h.once s
  obtain ⟨next, hwrite⟩ : ∃ next, Bus.write (stackCell s) value bus = (.ok (), next) := by
    rw [write_ok_iff, hplaces]
    refine ⟨List.cons_ne_nil _ _, List.forall_mem_singleton.2 ?_⟩
    rw [refusal?_eq, hshape]
    exact if_pos hin
  obtain ⟨hlayout, hpeek⟩ := peek_write hwrite
  refine ⟨next, hwrite, hlayout.stackRam h, fun t => ?_⟩
  simp only [hpeek, h.aliased_iff]

theorem StackRam.push (h : bus.StackRam) (regs : Registers) (value : UInt8) :
    ∃ next, (Exec.push value : Exec MappedBus Unit) ⟨regs, bus⟩ =
        .ok () ⟨{ regs with sp := regs.sp - 1 }, next⟩ ∧ next.StackRam ∧
      ∀ t, Bus.peek next (stackCell t) =
        if regs.sp = t then value else Bus.peek bus (stackCell t) := by
  obtain ⟨next, hwrite, hstack, hpeek⟩ := h.write regs.sp value
  refine ⟨next, ?_, hstack, hpeek⟩
  rw [Exec.push_eq, Outcome.commit, hwrite]
  rfl

/-- An interrupt leaves the program counter on the stack, and the status below it. -/
theorem StackRam.enterInterrupt (h : bus.StackRam) (regs : Registers) (vector : UInt16) :
    ∃ next, M6502.enterInterrupt vector ⟨regs, bus⟩ = .ok () ⟨{ regs with
        sp := regs.sp - 3
        pc := vector
        status := { regs.status with interruptDisable := true } }, next⟩ ∧
      Bus.peek next (stackCell regs.sp) = highByte regs.pc ∧
      Bus.peek next (stackCell (regs.sp - 1)) = lowByte regs.pc ∧
      Bus.peek next (stackCell (regs.sp - 2)) = regs.status.pushed false := by
  have htwo : regs.sp - 1 - 1 = regs.sp - 2 := by grind
  have hthree : regs.sp - 1 - 1 - 1 = regs.sp - 3 := by grind
  have hne : regs.sp - 1 ≠ regs.sp := by grind
  have hne' : regs.sp - 2 ≠ regs.sp := by grind
  have hne'' : regs.sp - 2 ≠ regs.sp - 1 := by grind
  obtain ⟨first, hfirst, hstack, hhigh⟩ := h.push regs (highByte regs.pc)
  obtain ⟨second, hsecond, hstack, hlow⟩ :=
    hstack.push { regs with sp := regs.sp - 1 } (lowByte regs.pc)
  obtain ⟨third, hthird, -, hstatus⟩ :=
    hstack.push { regs with sp := regs.sp - 1 - 1 } (regs.status.pushed false)
  refine ⟨third, ?_, ?_, ?_, ?_⟩
  · show (Exec.push (highByte regs.pc) >>= fun _ => Exec.push (lowByte regs.pc) >>= fun _ =>
      Exec.push (regs.status.pushed false) >>= fun _ =>
        Exec.update fun r => { r.setFlag .interruptDisable true with pc := vector } :
      Exec MappedBus Unit) ⟨regs, bus⟩ = _
    rw [Exec.bind_of_ok hfirst, Exec.bind_of_ok hsecond, Exec.bind_of_ok hthird, hthree]
    rfl
  · rw [hstatus, htwo, if_neg hne', hlow, if_neg hne, hhigh, if_pos rfl]
  · rw [hstatus, htwo, if_neg hne'', hlow, if_pos rfl]
  · rw [hstatus, htwo, if_pos rfl]

end MappedBus

namespace Computer

def StackKept (n : Nat) (sp : UInt8) (c d : Computer) : Prop :=
  ∀ i < n, Bus.peek d.bus (stackCell (sp - UInt8.ofNat i)) =
    Bus.peek c.bus (stackCell (sp - UInt8.ofNat i))

theorem StackKept.top {n : Nat} {sp : UInt8} {c d : Computer} (h : StackKept n sp c d)
    (hn : 0 < n) : Bus.peek d.bus (stackCell sp) = Bus.peek c.bus (stackCell sp) := by
  have htop : sp - UInt8.ofNat 0 = sp := UInt8.sub_zero sp
  rw [← htop]
  exact h 0 hn

variable {c : Computer} {k : Nat} {e : Encoding} {s : UInt8}

/-- An instruction that was executed has left the outcome of its encoding. -/
theorem regs_of_answer (h : c.answer k = .ok e) : ∃ v, (c.after (k + 1)).regs =
    (e.outcome (c.after k).regs (Bus.peek (c.after k).bus) v).regs := by
  rw [answer, step_eq] at h
  rw [after_succ, step_eq]
  cases hs : M6502.step (c.after k).toMachine with
  | ok d m =>
    rw [hs] at h
    cases h
    obtain ⟨v, hshows⟩ := shows_of_step hs
    exact ⟨v, (M6502.step_ok hshows hs).2⟩
  | error t m =>
    rw [hs] at h
    cases h

theorem regs_of_return (h : c.answer k = .ok e) (he : e.mnemonic = .rti)
    (hsp : (c.after k).regs.sp = s - 3) :
    (c.after (k + 1)).regs.sp = s ∧
      (c.after (k + 1)).regs.status = .pulled (Bus.peek (c.after k).bus (stackCell (s - 2))) ∧
      (c.after (k + 1)).regs.pc = word (Bus.peek (c.after k).bus (stackCell (s - 1)))
        (Bus.peek (c.after k).bus (stackCell s)) := by
  have hone : (c.after k).regs.sp + 1 = s - 2 := by rw [hsp]; grind
  have htwo : (c.after k).regs.sp + 1 + 1 = s - 1 := by rw [hsp]; grind
  have hthree : (c.after k).regs.sp + 1 + 1 + 1 = s := by rw [hsp]; grind
  obtain ⟨v, hregs⟩ := regs_of_answer h
  rw [Encoding.outcome, he] at hregs
  rw [hregs, ← hone, ← htwo, ← hthree]
  exact ⟨rfl, rfl, rfl⟩

theorem regs_of_pull (h : c.answer k = .ok e) (he : e.mnemonic = .plp)
    (hsp : (c.after k).regs.sp = s - 1) :
    (c.after (k + 1)).regs.sp = s ∧
      (c.after (k + 1)).regs.status = .pulled (Bus.peek (c.after k).bus (stackCell s)) := by
  have hone : (c.after k).regs.sp + 1 = s := by rw [hsp, UInt8.sub_add_cancel]
  obtain ⟨v, hregs⟩ := regs_of_answer h
  rw [Encoding.outcome, he] at hregs
  rw [hregs, ← hone]
  exact ⟨rfl, rfl⟩

/-- An instruction that saves the status puts it on the stack. -/
theorem step_save (h : c.bus.StackRam)
    (hop : Encoding.ofOpcode? (Bus.peek c.bus c.regs.pc) = some e) (he : e.mnemonic = .php) :
    ∃ d, c.step = (.ok e, d) ∧ d.regs = { c.regs.opened with sp := c.regs.sp - 1 } ∧
      Bus.peek d.bus (stackCell c.regs.sp) = c.regs.status.pushed true := by
  obtain ⟨⟨regs, bus⟩, settings, vectors, cycles, heat⟩ := c
  have hstack := (MappedBus.read_eq bus regs.pc).1.stackRam h
  obtain ⟨next, hpush, -, hpeek⟩ := hstack.push regs.opened (regs.status.pushed true)
  have hstep : M6502.step ⟨regs, bus⟩ = .ok e ⟨{ regs.opened with sp := regs.sp - 1 }, next⟩ := by
    rw [step_documented hop, Mnemonic.perform, he]
    exact Exec.bind_of_ok hpush
  rw [step_eq]
  simp only [hstep]
  exact ⟨_, rfl, rfl, (hpeek regs.sp).trans (if_pos rfl)⟩

/-- An interrupt and the return from it are inverse. On entry the stack pointer has moved down by
three bytes, interrupts are disabled and the rest of the registers is as it was; the run that
follows goes through the states behind the entry. A return that is executed with the stack pointer
where the entry left it, and with the three bytes as they were pushed, goes on where the interrupt
came, with the stack pointer and the status from before. Saving and restoring the status are
inverse in the same way. -/
theorem interrupt_returns (c : Computer) (h : c.bus.StackRam) :
    (∃ d, c.act (enterInterrupt c.vectors.nmi) = (.ok (), d) ∧ c.interrupt = d.run ∧
      d = { c with
        bus := d.bus
        regs := { c.regs with
          sp := c.regs.sp - 3
          pc := c.vectors.nmi
          status := { c.regs.status with interruptDisable := true } } } ∧
      ∀ k e, d.answer k = .ok e → e.mnemonic = .rti → (d.after k).regs.sp = c.regs.sp - 3 →
        StackKept 3 c.regs.sp d (d.after k) →
        (d.after (k + 1)).regs.pc = c.regs.pc ∧ (d.after (k + 1)).regs.sp = c.regs.sp ∧
          (d.after (k + 1)).regs.status = c.regs.status.restored) ∧
    ∀ e, Encoding.ofOpcode? (Bus.peek c.bus c.regs.pc) = some e → e.mnemonic = .php →
      ∃ d, c.step = (.ok e, d) ∧ d.regs.sp = c.regs.sp - 1 ∧ d.regs.status = c.regs.status ∧
        ∀ k f, d.answer k = .ok f → f.mnemonic = .plp → (d.after k).regs.sp = c.regs.sp - 1 →
          StackKept 1 c.regs.sp d (d.after k) →
          (d.after (k + 1)).regs.sp = c.regs.sp ∧
            (d.after (k + 1)).regs.status = c.regs.status.restored := by
  constructor
  · obtain ⟨next, hentry, hhigh, hlow, hstatus⟩ := h.enterInterrupt c.regs c.vectors.nmi
    have hact := act_of_ok hentry
    refine ⟨_, hact, by rw [interrupt, hact], rfl, fun k e ha he hsp hkept => ?_⟩
    obtain ⟨hback, hpulled, hpc⟩ := regs_of_return ha he hsp
    have hkeptHigh := (hkept.top (by decide)).trans hhigh
    have hkeptLow := (hkept 1 (by decide)).trans hlow
    have hkeptStatus := (hkept 2 (by decide)).trans hstatus
    rw [hpc, hback, hpulled]
    refine ⟨?_, rfl, ?_⟩
    · exact (congrArg₂ word hkeptLow hkeptHigh).trans (word_lowByte_highByte c.regs.pc)
    · exact (congrArg Status.pulled hkeptStatus).trans (c.regs.status.pulled_pushed false)
  · intro e hop he
    obtain ⟨d, hstep, hregs, hsaved⟩ := step_save h hop he
    refine ⟨d, hstep, by rw [hregs], by rw [hregs]; rfl, fun k f ha hf hsp hkept => ?_⟩
    obtain ⟨hback, hpulled⟩ := regs_of_pull ha hf hsp
    rw [hback, hpulled, hkept.top Nat.zero_lt_one, hsaved, Status.pulled_pushed]
    exact ⟨rfl, rfl⟩

def counting : Computer :=
  (withBus (MappedBus.empty.map (.ram 0x200 none) 0x0000) {}).load
    #[0xE6, 0x10, 0x40, 0xEA, 0xEA, 0xEA, 0xEA, 0xEA, 0xEA, 0xEA,
      0xF0, 0xFF, 0xF3, 0xFF, 0xF0, 0xFF]
    0xFFF0

theorem stackRam_counting : counting.bus.StackRam := by
  have hbindings : counting.bus.bindings =
    [⟨0, 0x0000, 0x0200, 0x0000⟩, ⟨1, 0xFFF0, 0x10000, 0xFFF0⟩] := by decide +kernel
  have hlt (s : UInt8) : (stackCell s).toNat < 0x0200 := by
    have hs := s.toNat_lt
    rw [toNat_stackCell]
    omega
  have hwriters (s : UInt8) :
      counting.bus.writers (stackCell s) = [⟨0, 0x0000, 0x0200, 0x0000⟩] := by
    have hram : Binding.covers ⟨0, 0x0000, 0x0200, 0x0000⟩ (stackCell s) = true :=
      (Bool.and_eq_true _ _).mpr ⟨decide_eq_true (Nat.zero_le _), decide_eq_true (hlt s)⟩
    have hrom : ¬Binding.covers ⟨1, 0xFFF0, 0x10000, 0xFFF0⟩ (stackCell s) = true := by
      have hs := hlt s
      simp [Binding.covers]
      omega
    rw [MappedBus.writers, hbindings, List.filter_cons, if_pos hram, List.filter_cons, if_neg hrom,
      List.filter_nil]
  have hshape : counting.bus.shape? 0 = some (.ram none, 0x0200) := by decide +kernel
  refine MappedBus.stackRam_of_writers hwriters hshape fun s => ?_
  rw [Binding.within, UInt16.sub_zero]
  exact hlt s

theorem interrupt_returns_counting :
    ∃ d, counting.act (enterInterrupt counting.vectors.nmi) = (.ok (), d) ∧
      counting.interrupt = d.run ∧ d.regs.pc = 0xFFF0 ∧ d.regs.sp = 0xFD ∧
      (d.after 2).regs.pc = 0xFFF3 ∧ (d.after 2).regs.sp = 0 ∧
      (d.after 2).regs.status = Status.clear.restored := by
  obtain ⟨⟨d, hentry, hrun, hd, hreturn⟩, -⟩ := interrupt_returns counting stackRam_counting
  obtain rfl : (counting.act (enterInterrupt counting.vectors.nmi)).2 = d := by rw [hentry]
  have hkept : StackKept 3 counting.regs.sp
      (counting.act (enterInterrupt counting.vectors.nmi)).2
      ((counting.act (enterInterrupt counting.vectors.nmi)).2.after 1) := by
    unfold StackKept
    decide +kernel
  obtain ⟨hpc, hsp, hstatus⟩ := hreturn 1 (.of .rti .implied) (by decide +kernel)
    (Encoding.mnemonic_of _) (by decide +kernel) hkept
  refine ⟨_, hentry, hrun, by decide +kernel, by decide +kernel, ?_, ?_, ?_⟩
  · rw [hpc]
    decide +kernel
  · rw [hsp]
    decide +kernel
  · rw [hstatus]
    decide +kernel

end Computer

end M6502
