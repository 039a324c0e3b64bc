import M6502.Proofs.Computer.Running
import M6502.Proofs.Processor.Writes

/-!
# Traps

A step traps for two reasons: an opcode that no encoding has, or a write
outside of the memory. The first changes nothing. The second may leave
flags and the program counter behind, but no register that a program keeps
its data in, and of a call whose second byte finds no cell the first one.
-/

set_option autoImplicit false

namespace M6502

/-- What an action that is no call leaves of the registers when its write is refused. -/
theorem Action.get_refused {action : Action} (ha : action ≠ .call) {mode : AddressingMode}
    {regs : Registers} {peek : UInt16 → UInt8} {v : UInt16} {s : Store}
    (hs : s ∈ (action.outcome mode regs peek v).stores) (r : Register) :
    s.refused.get r = regs.get r := by
  cases action with
  | call => contradiction
  | store q =>
    obtain rfl := List.mem_singleton.1 hs
    cases r <;> rfl
  | modify f =>
    rw [outcome] at hs
    split at hs
    · contradiction
    · obtain rfl := List.mem_singleton.1 hs
      cases r <;> rfl
  | branch f on => contradiction
  | pushAccumulator =>
    obtain rfl := List.mem_singleton.1 hs
    rfl
  | pushStatus =>
    obtain rfl := List.mem_singleton.1 hs
    rfl
  | _ => contradiction

structure Contained (e : Encoding) (addr : UInt16) (m d : Machine FlatMemory) : Prop where
  registers : ∀ r, r ≠ .sp → d.regs.get r = m.regs.get r
  stack : d.regs.sp =
    if e.mnemonic = .jsr ∧ addr = stackCell (m.regs.sp - 1) then m.regs.sp - 1 else m.regs.sp
  memory : if e.mnemonic = .jsr ∧ addr = stackCell (m.regs.sp - 1) then
      Bus.write (stackCell m.regs.sp) (highByte (m.regs.pc + 2)) m.bus = (.ok (), d.bus)
    else d.bus = m.bus

section Refused

variable {e : Encoding} {m : Machine FlatMemory} {front back : List Store} {s : Store}
  {next : FlatMemory}
  (hstores : (e.outcomeOn m).stores = front ++ s :: back)
  (hcommit : Outcome.commit s.refused front m.bus = .ok () ⟨s.refused, next⟩)
include hstores hcommit

theorem contained_call (hjsr : e.mnemonic = .jsr) : Contained e s.addr m ⟨s.refused, next⟩ := by
  obtain ⟨aimed, haimed, hcall⟩ := Encoding.stores_call hjsr m
  rw [hcall] at hstores
  cases front with
  | nil =>
    obtain ⟨rfl, -⟩ := List.cons.inj hstores
    cases hcommit
    have hfirst : ¬ (e.mnemonic = .jsr ∧ stackCell m.regs.sp = stackCell (m.regs.sp - 1)) :=
      fun h => stackCell_ne_next m.regs.sp h.2
    refine ⟨fun r _ => haimed r, ?_, ?_⟩
    · rw [if_neg hfirst]
      exact haimed .sp
    · rw [if_neg hfirst]
  | cons t front =>
    obtain ⟨rfl, hrest⟩ := List.cons.inj hstores
    obtain ⟨rfl, hlast⟩ | ⟨-, hback⟩ := List.append_eq_singleton_iff.1 hrest.symm
    · obtain ⟨rfl, -⟩ := List.cons.inj hlast
      refine ⟨fun r hr => ?_, ?_, ?_⟩
      · cases r with
        | sp => contradiction
        | a => exact haimed .a
        | x => exact haimed .x
        | y => exact haimed .y
      · rw [if_pos ⟨hjsr, rfl⟩]
      · rw [if_pos ⟨hjsr, rfl⟩]
        rw [Outcome.commit] at hcommit
        split at hcommit
        · rename_i answer mid hwrite
          cases hcommit
          exact hwrite
        · contradiction
    · contradiction

theorem contained_other (hjsr : e.mnemonic ≠ .jsr) : Contained e s.addr m ⟨s.refused, next⟩ := by
  have hlength := Encoding.length_writes hjsr m
  rw [← e.map_stores, List.length_map, hstores, List.length_append, List.length_cons] at hlength
  obtain rfl : front = [] := List.eq_nil_of_length_eq_zero (by omega)
  cases hcommit
  have hget (r : Register) : s.refused.get r = m.regs.get r := by
    have hmem : s ∈ (e.outcomeOn m).stores := hstores ▸ List.mem_append_right _ List.mem_cons_self
    rw [Action.get_refused (mt Mnemonic.action_eq_call.1 hjsr) hmem]
    cases r <;> rfl
  refine ⟨fun r _ => hget r, ?_, ?_⟩
  · rw [if_neg fun h => hjsr h.1]
    exact hget .sp
  · rw [if_neg fun h => hjsr h.1]

end Refused

theorem contained_of_refused {e : Encoding} {m : Machine FlatMemory} {w : UInt16 × UInt8}
    (h : Encoding.ofOpcode? (m.bus.get m.regs.pc) = some e) (hr : e.refused? m = some w) :
    ∃ d, step m = .error (.bus w.1 (.unmappedWrite w.1 w.2)) d ∧ Contained e w.1 m d := by
  obtain ⟨front, s, back, next, hstores, rfl, hcommit, hstep⟩ := step_refused h hr
  refine ⟨_, hstep, ?_⟩
  by_cases hjsr : e.mnemonic = .jsr
  · exact contained_call hstores hcommit hjsr
  · exact contained_other hstores hcommit hjsr

theorem step_flat (m : Machine FlatMemory) :
    (Encoding.ofOpcode? (m.bus.get m.regs.pc) = none ∧
        step m = .error (.illegalOpcode m.regs.pc (m.bus.get m.regs.pc)) m) ∨
      ∃ e, Encoding.ofOpcode? (m.bus.get m.regs.pc) = some e ∧
        ((e.refused? m = none ∧ ∃ d, step m = .ok e d) ∨
          ∃ w d, e.refused? m = some w ∧
            step m = .error (.bus w.1 (.unmappedWrite w.1 w.2)) d ∧ Contained e w.1 m d) := by
  cases hop : Encoding.ofOpcode? (m.bus.get m.regs.pc) with
  | none => exact .inl ⟨rfl, step_undocumented hop⟩
  | some e =>
    refine .inr ⟨e, rfl, ?_⟩
    cases hr : e.refused? m with
    | none =>
      obtain ⟨next, hstep, -⟩ := step_accepted hop hr
      exact .inl ⟨rfl, _, hstep⟩
    | some w =>
      obtain ⟨d, hstep, hcontained⟩ := contained_of_refused hop hr
      exact .inr ⟨w, d, rfl, hstep, hcontained⟩

/-- When a step traps, with which trap, and what it leaves. -/
structure TrapsExactly (m : Machine FlatMemory) : Prop where
  illegal : ∀ pc opcode d, step m = .error (.illegalOpcode pc opcode) d ↔
    pc = m.regs.pc ∧ opcode = m.bus.get pc ∧ Encoding.ofOpcode? opcode = none ∧ d = m
  refused : ∀ addr cause, (∃ d, step m = .error (.bus addr cause) d) ↔
    ∃ e value, Encoding.ofOpcode? (m.bus.get m.regs.pc) = some e ∧
      e.refused? m = some (addr, value) ∧ cause = .unmappedWrite addr value
  contained : ∀ e addr cause d, Encoding.ofOpcode? (m.bus.get m.regs.pc) = some e →
    step m = .error (.bus addr cause) d → Contained e addr m d
  accepted : (∃ e d, step m = .ok e d) ↔
    ∃ e, Encoding.ofOpcode? (m.bus.get m.regs.pc) = some e ∧ e.refused? m = none

theorem traps_exactly (m : Machine FlatMemory) : TrapsExactly m where
  illegal pc opcode d := by
    constructor
    · intro h
      obtain ⟨hop, hstep⟩ | ⟨e, -, ⟨-, d', hstep⟩ | ⟨w, d', -, hstep, -⟩⟩ := step_flat m
      · cases h.symm.trans hstep
        exact ⟨rfl, rfl, hop, rfl⟩
      · cases h.symm.trans hstep
      · cases h.symm.trans hstep
    · rintro ⟨rfl, rfl, hop, rfl⟩
      exact step_undocumented hop
  refused addr cause := by
    constructor
    · rintro ⟨d, h⟩
      obtain ⟨-, hstep⟩ | ⟨e, hop, ⟨-, d', hstep⟩ | ⟨w, d', hr, hstep, -⟩⟩ := step_flat m
      · cases h.symm.trans hstep
      · cases h.symm.trans hstep
      · cases h.symm.trans hstep
        exact ⟨e, w.2, hop, hr, rfl⟩
    · rintro ⟨e, value, hop, hr, rfl⟩
      obtain ⟨d, hstep, -⟩ := contained_of_refused hop hr
      exact ⟨d, hstep⟩
  contained e addr cause d hop h := by
    obtain ⟨hnone, hstep⟩ | ⟨e', hop', ⟨-, d', hstep⟩ | ⟨w, d', -, hstep, hcontained⟩⟩ :=
      step_flat m
    · cases h.symm.trans hstep
    · cases h.symm.trans hstep
    · cases h.symm.trans hstep
      cases hop.symm.trans hop'
      exact hcontained
  accepted := by
    constructor
    · rintro ⟨e, d, h⟩
      obtain ⟨-, hstep⟩ | ⟨e', hop, ⟨hr, -⟩ | ⟨w, d', -, hstep, -⟩⟩ := step_flat m
      · cases h.symm.trans hstep
      · exact ⟨e', hop, hr⟩
      · cases h.symm.trans hstep
    · rintro ⟨e, hop, hr⟩
      obtain ⟨next, hstep, -⟩ := step_accepted hop hr
      exact ⟨e, _, hstep⟩

/-- A trapped step of a computer leaves its counts and halts it. -/
theorem Computer.counts_of_trap {c d : Computer} {t : Trap} (h : c.step = (.error t, d)) :
    d.cycles = c.cycles ∧ d.heat = c.heat ∧ d.regs.halted = true := by
  obtain ⟨hcycles, hhalted⟩ := step_error h
  have hheat := heat_step c
  rw [h] at hheat
  exact ⟨hcycles, hheat, hhalted⟩

/-- Traps are exact, and what they leave is known. -/
theorem traps_contained :
    (∀ m : Machine FlatMemory, TrapsExactly m) ∧
      ∀ (c d : Computer) (t : Trap), c.step = (.error t, d) →
        d.cycles = c.cycles ∧ d.heat = c.heat ∧ d.regs.halted = true :=
  ⟨traps_exactly, fun _ _ _ h => Computer.counts_of_trap h⟩

def lastCell : Machine FlatMemory :=
  ⟨{ Registers.atReset 0x0111 with sp := 0x10 }, ⟨#[0x00, 0x20, 0x34, 0x12], 0x0110⟩⟩

def strayed : Computer :=
  { Computer.withBus (MappedBus.empty.map (.rom #[0x02]) 0x8000) ⟨some 2, true⟩ with
    regs := { Registers.atReset 0x8000 with halted := false } }

theorem traps_contained_last_cell :
    (∃ d, step lastCell = .error (.bus 0x010F (.unmappedWrite 0x010F 0x13)) d ∧
      Contained (.of .jsr .absolute) 0x010F lastCell d ∧ d.bus.get 0x0110 = 0x01) ∧
    ∃ d, strayed.step = (.error (.illegalOpcode 0x8000 0x02), d) ∧ d.cycles = strayed.cycles ∧
      d.heat = strayed.heat ∧ d.regs.halted = true := by
  obtain ⟨hflat, hcomputer⟩ := traps_contained
  constructor
  · have hop :
        Encoding.ofOpcode? (lastCell.bus.get lastCell.regs.pc) = some (.of .jsr .absolute) := by
      decide +kernel
    have hrefused : Encoding.refused? (.of .jsr .absolute) lastCell = some (0x010F, 0x13) := by
      decide +kernel
    obtain ⟨d, hstep⟩ := ((hflat lastCell).refused _ _).2 ⟨_, _, hop, hrefused, rfl⟩
    have hcontained := (hflat lastCell).contained _ _ _ d hop hstep
    refine ⟨d, hstep, hcontained, ?_⟩
    have hwrite := hcontained.memory
    rw [if_pos (by decide +kernel)] at hwrite
    have hbyte := congrArg (fun r => r.2.get 0x0110) hwrite
    exact hbyte.symm.trans (by decide +kernel)
  · have htrap : strayed.step.1 = .error (.illegalOpcode 0x8000 0x02) := by decide +kernel
    have hstep : strayed.step = (.error (.illegalOpcode 0x8000 0x02), strayed.step.2) :=
      Prod.ext htrap rfl
    exact ⟨_, hstep, hcomputer _ _ _ hstep⟩

end M6502
