import M6502.Proofs.Processor.Writes

/-!
# Footprints

Which flags, registers and cells of memory an instruction may change, by its
operation. The tables are those of a programmer's manual; they are checked
against the actions, which many operations share.
-/

set_option autoImplicit false

namespace M6502

def Mnemonic.flags : Mnemonic → List Flag
  | .lda | .ldx | .ldy | .tax | .tay | .txa | .tya | .tsx | .inx | .iny | .dex | .dey | .inc | .dec
  | .and | .ora | .eor | .pla => [.negative, .zero]
  | .cmp | .cpx | .cpy | .asl | .lsr | .rol | .ror => [.negative, .zero, .carry]
  | .adc | .sbc => [.negative, .zero, .carry, .overflow]
  | .bit => [.negative, .zero, .overflow]
  | .clc | .sec => [.carry]
  | .cli | .sei => [.interruptDisable]
  | .cld | .sed => [.decimal]
  | .clv => [.overflow]
  | .brk => [.brk]
  | .plp | .rti => Flag.all
  | _ => []

def Mnemonic.showsResult (m : Mnemonic) : Bool :=
  m.flags.contains .negative && m != .bit && m != .plp && m != .rti

def Mnemonic.registers (mode : AddressingMode) : Mnemonic → List Register
  | .lda | .txa | .tya | .adc | .sbc | .and | .ora | .eor => [.a]
  | .asl | .lsr | .rol | .ror => if mode = .implied then [.a] else []
  | .pla => [.a, .sp]
  | .ldx | .tax | .tsx | .inx | .dex => [.x]
  | .ldy | .tay | .iny | .dey => [.y]
  | .txs | .pha | .php | .plp | .jsr | .rts | .rti => [.sp]
  | _ => []

namespace Registers

variable {f : Flag}

theorem flag_setFlag {g : Flag} (h : f ≠ g) (r : Registers) (on : Bool) :
    (r.setFlag g on).flag f = r.flag f :=
  (Status.get_set _ _ _ _).trans (if_neg h.symm)

theorem flag_setResult (hz : f ≠ .zero) (hn : f ≠ .negative) (r : Registers) (v : UInt8) :
    (r.setResult v).flag f = r.flag f := by
  cases f <;> first | contradiction | rfl

theorem flag_put (hz : f ≠ .zero) (hn : f ≠ .negative) (r : Registers) (dst : Register)
    (v : UInt8) : (r.put dst v).flag f = r.flag f := by
  rw [put, flag_setResult hz hn]
  cases dst <;> rfl

end Registers

theorem Flag.mem_all (f : Flag) : f ∈ all := by
  cases f <;> decide

namespace Action

def flags : Action → List Flag
  | .load _ | .transfer _ _ | .count _ _ | .modify .increment | .modify .decrement | .combine _
  | .pullAccumulator => [.negative, .zero]
  | .compare _ | .modify _ => [.negative, .zero, .carry]
  | .add | .subtract => [.negative, .zero, .carry, .overflow]
  | .testBits => [.negative, .zero, .overflow]
  | .setFlag f _ => [f]
  | .halt => [.brk]
  | .pullStatus | .returnFromInterrupt => Flag.all
  | _ => []

def result? (mode : AddressingMode) (regs : Registers) (peek : UInt16 → UInt8) (v : UInt16) :
    Action → Option UInt8 :=
  let b := peek (mode.effective regs peek v)
  fun
  | .load _ => some b
  | .transfer src _ => some (regs.get src)
  | .count r up => some (if up then regs.get r + 1 else regs.get r - 1)
  | .modify f => some (f.apply regs.status.carry (if mode = .implied then regs.a else b)).1
  | .combine f => some (f.apply regs.a b)
  | .add => some (addWithCarry regs.a b regs.status.carry).value
  | .subtract => some (addWithCarry regs.a (~~~b) regs.status.carry).value
  | .compare r => some (regs.get r - b)
  | .pullAccumulator => some (peek (stackCell (regs.sp + 1)))
  | _ => none

variable {action : Action} {mode : AddressingMode} {regs : Registers} {peek : UInt16 → UInt8}
  {v : UInt16}

theorem flag_modify {f : Flag} {g : Modification} (h : f ∉ (modify g).flags) :
    ((modify g).outcome mode regs peek v).regs.flag f = regs.flag f := by
  have hmodified (r : Registers) (b : UInt8) : (r.modified g b).2.flag f = r.flag f := by
    cases g with
    | increment | decrement =>
      simp only [flags, List.mem_cons, List.not_mem_nil, or_false, not_or] at h
      rw [Registers.modified, Registers.flag_setResult h.2 h.1]
      rfl
    | _ =>
      simp only [flags, List.mem_cons, List.not_mem_nil, or_false, not_or] at h
      obtain ⟨hn, hz, hc⟩ := h
      rw [Registers.modified, Registers.flag_setResult hz hn, Registers.flag_setFlag hc]
  rw [outcome]
  split
  · exact hmodified regs regs.a
  · exact hmodified _ _

theorem flag_outcome {f : Flag} (h : f ∉ action.flags) :
    (action.outcome mode regs peek v).regs.flag f = regs.flag f := by
  cases action with
  | load | transfer | count | combine | pullAccumulator =>
    simp only [flags, List.mem_cons, List.not_mem_nil, or_false, not_or] at h
    exact Registers.flag_put h.2 h.1 _ _ _
  | modify g => exact flag_modify h
  | add | subtract =>
    simp only [flags, List.mem_cons, List.not_mem_nil, or_false, not_or] at h
    obtain ⟨hn, hz, hc, hv⟩ := h
    rw [outcome, Registers.added, Registers.flag_put hz hn, Registers.flag_setFlag hv,
      Registers.flag_setFlag hc]
    rfl
  | compare r =>
    simp only [flags, List.mem_cons, List.not_mem_nil, or_false, not_or] at h
    obtain ⟨hn, hz, hc⟩ := h
    rw [outcome, Registers.compared, Registers.flag_setResult hz hn, Registers.flag_setFlag hc]
    rfl
  | testBits =>
    simp only [flags, List.mem_cons, List.not_mem_nil, or_false, not_or] at h
    obtain ⟨hn, hz, hv⟩ := h
    rw [outcome, Registers.bitsTested, Registers.flag_setFlag hv, Registers.flag_setFlag hn,
      Registers.flag_setFlag hz]
    rfl
  | setFlag g on => exact Registers.flag_setFlag (mt List.mem_singleton.2 h) regs on
  | halt => exact Registers.flag_setFlag (mt List.mem_singleton.2 h) regs true
  | pullStatus | returnFromInterrupt => exact absurd f.mem_all h
  | branch g on => rw [outcome]; split <;> rfl
  | _ => rfl

theorem flags_of_result {b : UInt8} (h : action.result? mode regs peek v = some b) :
    (action.outcome mode regs peek v).regs.flag .zero = (b == 0) ∧
      (action.outcome mode regs peek v).regs.flag .negative = isNegative b := by
  cases action with
  | load r => cases h; cases r <;> exact ⟨rfl, rfl⟩
  | transfer src dst => cases h; cases dst <;> exact ⟨rfl, rfl⟩
  | count r up => cases h; cases r <;> exact ⟨rfl, rfl⟩
  | modify f =>
    rw [result?] at h
    rw [outcome]
    split at h <;> rename_i hmode
    · cases h
      rw [if_pos hmode]
      exact ⟨rfl, rfl⟩
    · cases h
      rw [if_neg hmode]
      exact ⟨rfl, rfl⟩
  | combine f => cases h; exact ⟨rfl, rfl⟩
  | add => cases h; exact ⟨rfl, rfl⟩
  | subtract => cases h; exact ⟨rfl, rfl⟩
  | compare r => cases h; exact ⟨rfl, rfl⟩
  | pullAccumulator => cases h; exact ⟨rfl, rfl⟩
  | _ => contradiction

/-- What a register other than the stack pointer changes to is the result. -/
theorem get_of_changes {r : Register} (h : action.changes mode r = true) (hr : r ≠ .sp) :
    action.result? mode regs peek v = some ((action.outcome mode regs peek v).regs.get r) := by
  cases action with
  | load s => obtain rfl := eq_of_beq h; cases s <;> rfl
  | transfer t s => obtain rfl := eq_of_beq h; cases s <;> rfl
  | count s up => obtain rfl := eq_of_beq h; cases s <;> rfl
  | modify f =>
    obtain ⟨ha, hm⟩ := (Bool.and_eq_true _ _).mp h
    obtain rfl := eq_of_beq ha
    obtain rfl := eq_of_beq hm
    rfl
  | combine f => obtain rfl := eq_of_beq h; rfl
  | add => obtain rfl := eq_of_beq h; rfl
  | subtract => obtain rfl := eq_of_beq h; rfl
  | pullAccumulator => cases r <;> first | contradiction | rfl
  | _ => cases r <;> contradiction

end Action

theorem Mnemonic.flags_eq (m : Mnemonic) : m.flags = m.action.flags := by
  cases m <;> rfl

namespace Encoding

theorem registers_rows : (instructionTable.all fun row => [Register.a, .x, .y, .sp].all fun r =>
    row.mnemonic.action.changes row.mode r == (row.mnemonic.registers row.mode).contains r) =
      true := by
  decide +kernel

theorem changes_iff (e : Encoding) (r : Register) :
    e.mnemonic.action.changes e.mode r = true ↔ r ∈ e.mnemonic.registers e.mode := by
  have hrow := List.all_eq_true.1 registers_rows e.toRow e.documented
  have hregister := List.all_eq_true.1 hrow r (by cases r <;> decide)
  rw [eq_of_beq hregister, List.contains_iff_mem]

theorem result?_eq {β : Type} [Bus β] (e : Encoding) (m : Machine β) :
    e.result? m = e.mnemonic.action.result? e.mode m.regs.opened (Bus.peek m.bus)
      (Bus.wordBehind m.bus m.regs.pc) := by
  have hs := e.suited
  obtain ⟨⟨opcode, op, mode⟩, hdoc⟩ := e
  cases op with
  | asl | lsr | rol | ror | inc | dec =>
    simp only [result?, operandByte, Action.result?, Mnemonic.action, Modification.value_apply]
    rfl
  | lda | ldx | ldy | and | ora | eor | cmp | cpx | cpy | adc =>
    have hmode : mode ≠ .implied := by
      rintro rfl
      contradiction
    simp only [result?, operandByte, if_neg hmode, Action.result?, Mnemonic.action,
      value_addWithCarry]
    rfl
  | sbc =>
    have hmode : mode ≠ .implied := by
      rintro rfl
      contradiction
    simp only [result?, operandByte, if_neg hmode]
    exact congrArg some (value_subtractWithBorrow _ _ _).symm
  | _ => rfl

theorem isSome_result? {β : Type} [Bus β] {e : Encoding} (h : e.mnemonic.showsResult = true)
    (m : Machine β) : ∃ b, e.result? m = some b := by
  cases hop : e.mnemonic <;> rw [hop] at h <;>
    first | contradiction | exact ⟨_, by rw [result?, hop]⟩

end Encoding

structure Footprint (e : Encoding) (m next : Machine FlatMemory) : Prop where
  flags : ∀ f, f ∉ e.mnemonic.flags → next.regs.flag f = m.regs.flag f
  result : e.mnemonic.showsResult = true → ∃ b, e.result? m = some b ∧
    (next.regs.flag .zero = true ↔ b = 0) ∧ (next.regs.flag .negative = true ↔ 0x80 ≤ b)
  registers : ∀ r, r ∉ e.mnemonic.registers e.mode → next.regs.get r = m.regs.get r
  held : ∀ r ∈ e.mnemonic.registers e.mode, r ≠ .sp → e.result? m = some (next.regs.get r)
  halted : next.regs.halted = true ↔ e.mnemonic = .brk
  memory : m.bus.SameBut ((e.writes m).map Prod.fst) next.bus
  written : ∀ w ∈ e.writes m, next.bus.get w.1 = w.2

theorem footprint_of_step {e : Encoding} {m next : Machine FlatMemory}
    (h : step m = .ok e next) : Footprint e m next := by
  have hdoc : Encoding.ofOpcode? (m.bus.get m.regs.pc) = some e := opcode_of_step h
  have haccepted : e.refused? m = none := by
    rw [Option.eq_none_iff_forall_ne_some]
    intro w hw
    obtain ⟨_, _, _, _, -, -, -, hstep⟩ := step_refused hdoc hw
    rw [h] at hstep
    contradiction
  obtain ⟨last, hstep, hsame, hwritten⟩ := step_accepted hdoc haccepted
  cases h.symm.trans hstep
  have hresult := e.result?_eq m
  exact {
    flags := fun f hf => Action.flag_outcome (e.mnemonic.flags_eq ▸ hf)
    result := fun hshows => by
      obtain ⟨b, hb⟩ := Encoding.isSome_result? hshows m
      obtain ⟨hzero, hnegative⟩ := Action.flags_of_result (hresult.symm.trans hb)
      exact ⟨b, hb, (Bool.eq_iff_iff.1 hzero).trans beq_iff_eq,
        (Bool.eq_iff_iff.1 hnegative).trans decide_eq_true_iff⟩
    registers := fun r hr => by
      rw [← e.changes_iff, Bool.not_eq_true] at hr
      have hget := Action.get_outcome hr m.regs.opened (Bus.peek m.bus)
        (Bus.wordBehind m.bus m.regs.pc)
      cases r <;> exact hget
    held := fun r hr hsp => hresult.trans (Action.get_of_changes ((e.changes_iff r).2 hr) hsp)
    halted := halted_step h
    memory := hsame
    written := hwritten }

def incrementStart : Machine FlatMemory :=
  ⟨.atReset 0, ⟨#[0xE6, 0x03, 0x00, 0x7F], 0⟩⟩

theorem footprint_of_increment :
    ∃ next, step incrementStart = .ok (.of .inc .zeroPage) next ∧
      Footprint (.of .inc .zeroPage) incrementStart next ∧ next.bus.get 0x03 = 0x80 ∧
      next.regs.flag .negative = true := by
  have hstep : step incrementStart = .ok (.of .inc .zeroPage)
      ⟨{ (Registers.atReset 2).setFlag .negative true with halted := false, ad := 0x03 },
        ⟨#[0xE6, 0x03, 0x00, 0x80], 0⟩⟩ := by
    rfl
  exact ⟨_, hstep, footprint_of_step hstep, rfl, rfl⟩

end M6502
