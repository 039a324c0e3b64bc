import M6502.Proofs.Computer.Running

/-!
# Halting

A run leaves the computer halted, however it ends: a BRK halts, and so do a
trapped step and the limit. An interrupt that cannot put its frame on the
stack comes to no run, and leaves the computer as halted as it was.
-/

set_option autoImplicit false

namespace M6502

def haltedAfter {β α : Type} : EStateM.Result Trap (Machine β) α → Bool
  | .ok _ m => m.regs.halted
  | .error _ m => m.regs.halted

variable {β : Type} [Bus β]

theorem haltedAfter_push {α : Type} {f : Unit → Exec β α}
    (hf : ∀ m, haltedAfter (f () m) = m.regs.halted) (value : UInt8) (m : Machine β) :
    haltedAfter ((Exec.push value >>= f) m) = m.regs.halted := by
  obtain ⟨regs, bus⟩ := m
  rw [Exec.push_bind]
  split
  · rw [hf]
  · rfl

theorem haltedAfter_enterInterrupt (vector : UInt16) (m : Machine β) :
    haltedAfter (enterInterrupt vector m) = m.regs.halted := by
  obtain ⟨regs, bus⟩ := m
  show haltedAfter ((Exec.push (highByte regs.pc) >>= fun _ => Exec.push (lowByte regs.pc) >>=
    fun _ => Exec.push (regs.status.pushed false) >>= fun _ =>
      Exec.update fun r => { r.setFlag .interruptDisable true with pc := vector } : Exec β Unit)
        ⟨regs, bus⟩) = _
  refine haltedAfter_push (fun m => haltedAfter_push (fun m => haltedAfter_push ?_ _ m) _ m) _ _
  exact fun m => rfl

namespace Computer

theorem halted_act {α : Type} {x : Exec MappedBus α}
    (hx : ∀ m, haltedAfter (x m) = m.regs.halted) (c : Computer) :
    (c.act x).2.regs.halted = c.regs.halted := by
  obtain ⟨m, settings, vectors, cycles, heat⟩ := c
  rw [← hx m, act]
  split <;> rename_i h <;> rw [h] <;> rfl

theorem halted_runFor (n : Nat) (c : Computer) : (runFor n c).2.regs.halted = true := by
  induction n generalizing c with
  | zero => rfl
  | succ n ih =>
    rw [runFor]
    split
    · rename_i t d hstep
      exact (step_error hstep).2
    · rename_i e d hstep
      split
      · rename_i hhalted
        exact hhalted
      · exact ih d

/-- A run leaves the computer halted. So does an interrupt, unless the computer was not halted and
the stack does not take the interrupt's frame. -/
theorem halted_run (c : Computer) :
    c.run.2.regs.halted = true ∧
      (c.interrupt.2.regs.halted = true ↔
        c.regs.halted = true ∨ ∃ d, c.act (enterInterrupt c.vectors.nmi) = (.ok (), d)) := by
  refine ⟨halted_runFor _ c, ?_⟩
  have hentry := halted_act (haltedAfter_enterInterrupt c.vectors.nmi) c
  rw [interrupt]
  split
  · rename_i d henter
    exact iff_of_true (halted_runFor _ d) (.inr ⟨d, henter⟩)
  · rename_i t d henter
    rw [henter] at hentry ⊢
    constructor
    · intro hhalted
      exact .inl (hentry.symm.trans hhalted)
    · rintro (hhalted | ⟨_, hok⟩)
      · exact hentry.trans hhalted
      · cases hok

def stackless : Computer :=
  ((new {}).load #[0xEA, 0xEA, 0xEA, 0xEA, 0xEA, 0xEA, 0xEA, 0xEA, 0xEA, 0xEA, 0xF0, 0xFF, 0xF0,
    0xFF, 0xF0, 0xFF] 0xFFF0).step.2

/-- The interrupt traps and the computer is not halted. -/
theorem interrupt_stackless :
    stackless.interrupt.1 = .error (.bus 0x0100 (.unmappedWrite 0x0100 0xFF)) ∧
      stackless.interrupt.2.regs.halted = false := by
  decide +kernel

end Computer

end M6502
