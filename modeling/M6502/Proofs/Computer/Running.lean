import M6502.Computer.Basic
import M6502.Proofs.Bus.Loading
import M6502.Proofs.Processor.Stepping

/-!
# Runs of a computer

A run is a number of steps: it ends behind the first that traps or is a BRK,
or else at its limit. A computer that was halted goes on like any other, so
runs that end at their limits join into one.
-/

set_option autoImplicit false

namespace M6502.Computer

def after : Nat → Computer → Computer
  | 0, c => c
  | n + 1, c => after n c.step.2

def answer (n : Nat) (c : Computer) : Except Trap Encoding :=
  (c.after n).step.1

def GoesOn : Except Trap Encoding → Prop
  | .ok e => e.mnemonic ≠ .brk
  | .error _ => False

def Undisturbed (n : Nat) (c : Computer) : Prop :=
  ∀ i < n, GoesOn (c.answer i)

def limited (c : Computer) (n : Nat) : Computer :=
  { c with settings := { c.settings with maxInstructions := some n } }

inductive LimitRuns : Nat → Computer → Computer → Prop
  | none (c : Computer) : LimitRuns 0 c c
  | run {j : Nat} {c mid last : Computer} (h : c.run = (.ok .limit, mid))
    (rest : LimitRuns j mid last) : LimitRuns (j + 1) c last

theorem act_of_ok {α : Type} {c : Computer} {x : Exec MappedBus α} {v : α} {m : Machine MappedBus}
    (h : x c.toMachine = .ok v m) : c.act x = (.ok v, { c with toMachine := m }) := by
  obtain ⟨⟨regs, bus⟩, settings, vectors, cycles, heat⟩ := c
  simp only [act, h]

theorem act_snd {α : Type} (c : Computer) (x : Exec MappedBus α) :
    ∃ m, (c.act x).2 = { c with toMachine := m } := by
  obtain ⟨m, settings, vectors, cycles, heat⟩ := c
  rw [act]
  split <;> exact ⟨_, rfl⟩

theorem step_eq (c : Computer) :
    c.step = match M6502.step c.toMachine with
      | .ok e m => (.ok e, { c with toMachine := m }.tally c.regs.pc e)
      | .error t m => (.error t, { c with toMachine := m }.halt) := by
  obtain ⟨⟨regs, bus⟩, settings, vectors, cycles, heat⟩ := c
  have hlocated : locatedStep ⟨regs, bus⟩ = match M6502.step ⟨regs, bus⟩ with
      | .ok e m => .ok (regs.pc, e) m
      | .error t m => .error t m := by
    show EStateM.bind M6502.step (fun e => pure (regs.pc, e)) ⟨regs, bus⟩ = _
    rw [EStateM.bind]
    cases M6502.step ⟨regs, bus⟩ <;> rfl
  simp only [step, act, hlocated]
  cases M6502.step ⟨regs, bus⟩ <;> rfl

theorem step_ok {c d : Computer} {e : Encoding} (h : c.step = (.ok e, d)) :
    d.cycles = c.cycles + 1 ∧ (d.regs.halted = true ↔ e.mnemonic = .brk) := by
  rw [step_eq] at h
  split at h
  · rename_i d m hm
    cases h
    exact ⟨rfl, halted_step hm⟩
  · cases h

theorem step_error {c d : Computer} {t : Trap} (h : c.step = (.error t, d)) :
    d.cycles = c.cycles ∧ d.regs.halted = true := by
  rw [step_eq] at h
  split at h
  · cases h
  · cases h
    exact ⟨rfl, rfl⟩

theorem getElem?_warm (heat : Std.TreeMap UInt16 Heat) (pc addr : UInt16) (e : Encoding) :
    (warm heat pc e)[addr]? =
      if pc = addr then some (heat[pc]?.elim ⟨1, e⟩ fun h => { h with count := h.count + 1 })
      else heat[addr]? := by
  rw [warm, Std.TreeMap.getElem?_alter]
  simp only [Std.LawfulEqCmp.compare_eq_iff_eq]
  cases heat[pc]? <;> rfl

theorem heat_step (c : Computer) :
    c.step.2.heat = match c.step.1 with
      | .ok e => (c.tally c.regs.pc e).heat
      | .error _ => c.heat := by
  rw [step_eq]
  cases M6502.step c.toMachine <;> rfl

theorem settings_step (c : Computer) : c.step.2.settings = c.settings := by
  rw [step_eq]
  split <;> rfl

theorem step_limited (c : Computer) (n : Nat) :
    (c.limited n).step = (c.step.1, c.step.2.limited n) := by
  rw [step_eq, step_eq, limited]
  cases M6502.step c.toMachine <;> rfl

/-- Whether it was halted makes no difference to a step. -/
theorem step_halt (c : Computer) : c.halt.step = c.step := by
  obtain ⟨⟨regs, bus⟩, settings, vectors, cycles, heat⟩ := c
  rw [step_eq, step_eq]
  cases hop : Encoding.ofOpcode? (Bus.peek bus regs.pc) with
  | none =>
    have hstep := step_undocumented hop
    have hhalted : M6502.step ⟨{ regs with halted := true }, bus⟩ = _ := step_undocumented hop
    simp only [halt, hstep, hhalted]
  | some e =>
    have hstep := step_documented hop
    have hhalted : M6502.step ⟨{ regs with halted := true }, bus⟩ = _ := step_documented hop
    have hopened : Registers.opened { regs with halted := true } = regs.opened := rfl
    rw [hopened] at hhalted
    simp only [halt, hhalted, hstep]

theorem after_succ (c : Computer) (n : Nat) : c.after (n + 1) = (c.after n).step.2 := by
  induction n generalizing c with
  | zero => rfl
  | succ n ih => exact ih c.step.2

theorem after_add (c : Computer) (n k : Nat) : c.after (n + k) = (c.after n).after k := by
  induction k with
  | zero => rfl
  | succ k ih => rw [← Nat.add_assoc, after_succ, after_succ, ih]

theorem answer_add (c : Computer) (n k : Nat) : c.answer (n + k) = (c.after n).answer k := by
  rw [answer, answer, after_add]

theorem after_limited (c : Computer) (k n : Nat) :
    (c.limited k).after n = (c.after n).limited k := by
  induction n with
  | zero => rfl
  | succ n ih => rw [after_succ, after_succ, ih, step_limited]

theorem answer_limited (c : Computer) (k n : Nat) : (c.limited k).answer n = c.answer n := by
  rw [answer, answer, after_limited, step_limited]

theorem halt_after_halt (c : Computer) (n : Nat) : (c.halt.after n).halt = (c.after n).halt := by
  cases n with
  | zero => rfl
  | succ n => rw [after, after, step_halt]

theorem answer_halt (c : Computer) (n : Nat) : c.halt.answer n = c.answer n := by
  rw [answer, answer, ← step_halt (c.halt.after n), ← step_halt (c.after n), halt_after_halt]

theorem Undisturbed.add {c : Computer} {n k : Nat} (h : c.Undisturbed n)
    (h' : (c.after n).Undisturbed k) : c.Undisturbed (n + k) := by
  intro i hi
  by_cases hlt : i < n
  · exact h i hlt
  · obtain ⟨j, rfl⟩ := Nat.exists_eq_add_of_le (Nat.le_of_not_lt hlt)
    rw [answer_add]
    exact h' j (by omega)

theorem Undisturbed.cycles_after {c : Computer} {n : Nat} (h : c.Undisturbed n) :
    (c.after n).cycles = c.cycles + n := by
  induction n with
  | zero => rfl
  | succ n ih =>
    have hstart := ih fun i hi => h i (Nat.lt_succ_of_lt hi)
    have hgoes := h n (Nat.lt_succ_self n)
    rw [answer] at hgoes
    rw [after_succ]
    cases hs : (c.after n).step with
    | mk r d =>
      rw [hs] at hgoes
      cases r with
      | ok e => rw [(step_ok hs).1, hstart, Nat.add_assoc]
      | error t => exact hgoes.elim

/-- Behind a step that goes on, so does the run. -/
theorem runFor_goesOn {c : Computer} (h : GoesOn c.step.1) (n : Nat) :
    c.runFor (n + 1) = c.step.2.runFor n := by
  rw [runFor]
  cases hs : c.step with
  | mk r d =>
    rw [hs] at h
    cases r with
    | ok e =>
      have hrunning : d.regs.halted = false := Bool.not_eq_true _ ▸ mt (step_ok hs).2.1 h
      simp only [hrunning, Bool.false_eq_true, if_false]
    | error t => exact h.elim

theorem Undisturbed.runFor {c : Computer} {k : Nat} (h : c.Undisturbed k) (n : Nat) :
    c.runFor (k + n) = (c.after k).runFor n := by
  induction k generalizing c with
  | zero => rw [Nat.zero_add, after]
  | succ k ih =>
    rw [Nat.add_right_comm, runFor_goesOn (c := c) (h 0 (Nat.succ_pos k))]
    exact ih fun i hi => h (i + 1) (Nat.succ_lt_succ hi)

theorem runFor_break {c : Computer} {k n : Nat} (hk : k < n) (h : c.Undisturbed k) {e : Encoding}
    (he : c.answer k = .ok e) (hbrk : e.mnemonic = .brk) :
    c.runFor n = (.ok .halted, c.after (k + 1)) := by
  obtain ⟨r, rfl⟩ := Nat.exists_eq_add_of_lt hk
  rw [Nat.add_assoc, h.runFor, after_succ, Computer.runFor]
  rw [answer] at he
  cases hs : (c.after k).step with
  | mk a d =>
    rw [hs] at he
    obtain rfl : a = .ok e := he
    simp only [(step_ok hs).2.2 hbrk, if_true]

theorem runFor_trap {c : Computer} {k n : Nat} (hk : k < n) (h : c.Undisturbed k) {t : Trap}
    (ht : c.answer k = .error t) : c.runFor n = (.error t, c.after (k + 1)) := by
  obtain ⟨r, rfl⟩ := Nat.exists_eq_add_of_lt hk
  rw [Nat.add_assoc, h.runFor, after_succ, Computer.runFor]
  rw [answer] at ht
  cases hs : (c.after k).step with
  | mk a d =>
    rw [hs] at ht
    obtain rfl : a = .error t := ht
    rfl

theorem Undisturbed.runFor_limit {c : Computer} {n : Nat} (h : c.Undisturbed n) :
    c.runFor n = (.ok .limit, (c.after n).halt) :=
  h.runFor 0

/-- Either a run goes on behind all of the first `n` steps, or there is a first that ends it. -/
theorem undisturbed_of_none {c : Computer} {n : Nat}
    (h : ∀ k < n, c.Undisturbed k → GoesOn (c.answer k)) : c.Undisturbed n := by
  intro i
  induction i using Nat.strongRecOn with
  | ind i ih =>
    intro hi
    exact h i hi fun j hj => ih j hj (Nat.lt_trans hj hi)

/-- A run that ends at its limit is undisturbed up to there. -/
theorem undisturbed_of_limit {c d : Computer} {n : Nat} (h : c.runFor n = (.ok .limit, d)) :
    c.Undisturbed n := by
  refine undisturbed_of_none fun k hk hstart => ?_
  cases ha : c.answer k with
  | ok e =>
    intro hbrk
    rw [runFor_break hk hstart ha hbrk] at h
    cases h
  | error t =>
    rw [runFor_trap hk hstart ha] at h
    cases h

theorem run_limited (c : Computer) (n : Nat) : (c.limited n).run = (c.limited n).runFor n :=
  rfl

/-- Runs that end at the same limit are one undisturbed run. -/
theorem LimitRuns.undisturbed {c d : Computer} {m j : Nat}
    (h : LimitRuns j (c.limited m) d) :
    c.Undisturbed (j * m) ∧ d.halt = (c.after (j * m)).halt.limited m ∧ (0 < j → d.halt = d) := by
  induction j generalizing c with
  | zero =>
    cases h
    rw [Nat.zero_mul]
    exact ⟨fun i hi => absurd hi (Nat.not_lt_zero i), rfl, fun hj => absurd hj (Nat.lt_irrefl 0)⟩
  | succ j ih =>
    cases h with
    | run hrun hrest =>
      rw [run_limited] at hrun
      have hlimited := undisturbed_of_limit hrun
      have hfirst : c.Undisturbed m := fun i hi => answer_limited c m i ▸ hlimited i hi
      rw [hlimited.runFor_limit, after_limited] at hrun
      cases hrun
      obtain ⟨hlater, hd, hstill⟩ := ih (c := (c.after m).halt) hrest
      have hlater : (c.after m).Undisturbed (j * m) :=
        fun i hi => answer_halt (c.after m) i ▸ hlater i hi
      rw [halt_after_halt, ← after_add] at hd
      rw [Nat.succ_mul, Nat.add_comm]
      refine ⟨hfirst.add hlater, hd, fun _ => ?_⟩
      cases j with
      | zero =>
        cases hrest
        rfl
      | succ j => exact hstill (Nat.succ_pos j)

/-- A run is the repetition of steps: it ends behind the first of its steps that is a BRK, or that
traps, and otherwise it halts at its limit. Each step that succeeds counts as a cycle. Runs in
succession that all end at one limit are a single run with their limits added up. -/
theorem run_iterates_step (c : Computer) (n : Nat) (h : c.settings.maxInstructions = some n) :
    (∀ k < n, c.Undisturbed k → ∀ e, c.answer k = .ok e → e.mnemonic = .brk →
      c.run = (.ok .halted, c.after (k + 1)) ∧ (c.after (k + 1)).cycles = c.cycles + (k + 1)) ∧
    (∀ k < n, c.Undisturbed k → ∀ t, c.answer k = .error t →
      c.run = (.error t, c.after (k + 1)) ∧ (c.after (k + 1)).regs.halted = true ∧
        (c.after (k + 1)).cycles = c.cycles + k) ∧
    ((∀ k < n, c.Undisturbed k → GoesOn (c.answer k)) →
      c.run = (.ok .limit, (c.after n).halt) ∧ (c.after n).cycles = c.cycles + n) ∧
    ∀ j m d, LimitRuns j (c.limited m) d →
      (c.limited (j * m)).run = (.ok .limit, (d.limited (j * m)).halt) ∧
        (0 < j → d.halt = d) := by
  have hrun : c.run = c.runFor n := by rw [run, Settings.limit, h, Option.getD_some]
  rw [hrun]
  refine ⟨fun k hk hstart e he hbrk => ?_, fun k hk hstart t ht => ?_, fun hnone => ?_,
    fun j m d hruns => ?_⟩
  · refine ⟨runFor_break hk hstart he hbrk, ?_⟩
    have hstep : (c.after k).step = (.ok e, c.after (k + 1)) := by
      rw [after_succ, ← he, answer]
    rw [(step_ok hstep).1, hstart.cycles_after, Nat.add_assoc]
  · have hstep : (c.after k).step = (.error t, c.after (k + 1)) := by
      rw [after_succ, ← ht, answer]
    obtain ⟨hcycles, hhalted⟩ := step_error hstep
    rw [hstart.cycles_after] at hcycles
    exact ⟨runFor_trap hk hstart ht, hhalted, hcycles⟩
  · have hall := undisturbed_of_none hnone
    exact ⟨hall.runFor_limit, hall.cycles_after⟩
  · obtain ⟨hall, hd, hstill⟩ := hruns.undisturbed
    have hlimited : (c.limited (j * m)).Undisturbed (j * m) :=
      fun i hi => (answer_limited c (j * m) i).symm ▸ hall i hi
    refine ⟨?_, hstill⟩
    rw [run_limited, hlimited.runFor_limit, after_limited]
    have hjoined := congrArg (fun e : Computer => e.limited (j * m)) hd
    exact congrArg (Prod.mk _) hjoined.symm

def breakAtLimit : Computer :=
  { withBus (MappedBus.empty.map (.rom #[0xEA, 0x00]) 0x8000) ⟨some 2, true⟩ with
    regs := .atReset 0x8000 }

/-- The BRK ends its run, and not the limit. -/
theorem run_iterates_step_last :
    breakAtLimit.run = (.ok .halted, breakAtLimit.after 2) ∧
      (breakAtLimit.after 2).cycles = breakAtLimit.cycles + 2 := by
  have hfirst : breakAtLimit.answer 0 = .ok (.of .nop .implied) := by decide +kernel
  have hlast : breakAtLimit.answer 1 = .ok (.of .brk .implied) := by decide +kernel
  refine (run_iterates_step breakAtLimit 2 rfl).1 1 (by decide) (fun i hi => ?_) _ hlast
    (by decide +kernel)
  obtain rfl : i = 0 := Nat.lt_one_iff.1 hi
  rw [hfirst]
  show (Encoding.of .nop .implied).mnemonic ≠ .brk
  rw [Encoding.mnemonic_of]
  decide

end M6502.Computer
