import M6502.Proofs.Processor.Runs

/-!
# Any step

What a step does wherever the program counter points. Behind a documented
opcode there is always some word for its operand, so a step that succeeds has
left the outcome of an encoding.
-/

set_option autoImplicit false

namespace M6502

variable {β : Type} [Bus β]

def Bus.wordBehind (bus : β) (addr : UInt16) : UInt16 :=
  word (Bus.peek bus (addr + 1)) (Bus.peek bus (addr + 1 + 1))

/-- A documented opcode begins an instruction, and as much as it needs of the word behind it is its
operand. -/
theorem Bus.shows_behind {bus : β} {addr : UInt16} {e : Encoding}
    (h : Encoding.ofOpcode? (Bus.peek bus addr) = some e) :
    Bus.Shows bus addr (e.bytes (Bus.wordBehind bus addr)) := by
  have hopcode := (Encoding.opcode_of_ofOpcode? h).symm
  rcases e.size_cases with hs | hs | hs
  · rw [Encoding.bytes_one hs]
    exact ⟨hopcode, trivial⟩
  · rw [Encoding.bytes_two hs, wordBehind, lowByte_word]
    exact ⟨hopcode, rfl, trivial⟩
  · rw [Encoding.bytes_three hs, wordBehind, lowByte_word, highByte_word]
    exact ⟨hopcode, rfl, rfl, trivial⟩

theorem Bus.shows_of_opcode {bus : β} {addr : UInt16} {e : Encoding}
    (h : Encoding.ofOpcode? (Bus.peek bus addr) = some e) :
    ∃ v, Bus.Shows bus addr (e.bytes v) :=
  ⟨_, Bus.shows_behind h⟩

variable [Storage β]

/-- A step that succeeds was at the opcode of the encoding that it answers. -/
theorem opcode_of_step {m next : Machine β} {e : Encoding} (h : step m = .ok e next) :
    Encoding.ofOpcode? (Bus.peek m.bus m.regs.pc) = some e := by
  cases hop : Encoding.ofOpcode? (Bus.peek m.bus m.regs.pc) with
  | none =>
    have hstep : step m = _ := step_undocumented hop
    rw [h] at hstep
    contradiction
  | some d => rw [(step_ok (Bus.shows_behind hop) h).1]

theorem shows_of_step {m next : Machine β} {e : Encoding} (h : step m = .ok e next) :
    ∃ v, Bus.Shows m.bus m.regs.pc (e.bytes v) :=
  ⟨_, Bus.shows_behind (opcode_of_step h)⟩

/-- Where every address is a cell, a step that succeeds leaves the outcome of its encoding. -/
theorem outcome_of_step {m next : Machine β} {e : Encoding} (h : step m = .ok e next)
    (hcells : ∀ a, Storage.Cell m.bus a) :
    ∃ v, next.regs = (e.outcome m.regs (Bus.peek m.bus) v).regs ∧
      Bus.peek next.bus =
        Outcome.stored (e.outcome m.regs (Bus.peek m.bus) v).stores (Bus.peek m.bus) ∧
      Storage.Cell next.bus = Storage.Cell m.bus := by
  obtain ⟨v, hshows⟩ := shows_of_step h
  obtain ⟨last, hstep, hpeek, hcell⟩ := step_cells hshows fun s _ => hcells s.addr
  cases h.symm.trans hstep
  exact ⟨v, rfl, hpeek, hcell⟩

/-- Where every address is a cell, an instruction of code is carried out, and the code stays as long
as the instruction does not write to it. -/
theorem step_in_code {m : Machine β} {base : UInt16} {code : List UInt8} (op : Mnemonic)
    (mode : AddressingMode) (v : UInt16) (k : Nat) (hcode : Bus.Shows m.bus base code)
    (hcells : ∀ a, Storage.Cell m.bus a) (hpc : m.regs.pc = base + UInt16.ofNat k)
    (hapart : ∀ s ∈ (op.action.outcome mode m.regs.opened (Bus.peek m.bus) v).stores,
      ∀ i < code.length, s.addr ≠ base + UInt16.ofNat i)
    (hd : (Encoding.ofParts? op mode).isSome = true := by decide)
    (hk : k ≤ code.length := by decide)
    (hat : (Encoding.of op mode hd).bytes v <+: code.drop k := by decide) :
    ∃ next, step m = .ok (.of op mode hd) next ∧
      next.regs = (op.action.outcome mode m.regs.opened (Bus.peek m.bus) v).regs ∧
      Bus.Shows next.bus base code ∧ ∀ a, Storage.Cell next.bus a := by
  have hshows : Bus.Shows m.bus m.regs.pc ((Encoding.of op mode hd).bytes v) := by
    obtain ⟨rest, hrest⟩ := hat
    rw [← List.take_append_drop k code, ← hrest, Bus.shows_append, Bus.shows_append,
      List.length_take_of_le hk, ← hpc] at hcode
    exact hcode.2.1
  obtain ⟨next, hstep, hpeek, hcell⟩ := step_cells hshows fun s _ => hcells s.addr
  rw [Encoding.outcome, Encoding.mnemonic_of, Encoding.mode_of] at hstep hpeek
  refine ⟨_, hstep, rfl, hcode.keep fun i hi => ?_, fun a => hcell ▸ hcells a⟩
  rw [hpeek]
  exact Outcome.stored_of_ne (fun s hs => hapart s hs i hi) _

/-- A step that succeeds halts at a BRK, and nowhere else. -/
theorem halted_step {m next : Machine β} {e : Encoding} (h : step m = .ok e next) :
    next.regs.halted = true ↔ e.mnemonic = .brk := by
  obtain ⟨v, hshows⟩ := shows_of_step h
  rw [(step_ok hshows h).2, Encoding.outcome]
  by_cases hbrk : e.mnemonic = .brk
  · rw [hbrk]
    exact iff_of_true rfl rfl
  · rw [Action.halted_outcome (mt Mnemonic.action_eq_halt.1 hbrk)]
    exact iff_of_false Bool.false_ne_true hbrk

end M6502
