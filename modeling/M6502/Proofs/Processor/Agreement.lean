import M6502.Bus.Flat
import M6502.Proofs.Processor.Displacement
import M6502.Proofs.Processor.Outcome

/-!
# The processor reads as the disassembler does

An instruction is measured twice: by the size of its mode, and by the bytes
that its action fetches. Both agree for every documented encoding, so
execution goes on where a listing has its next line, or where the decoded
operand says, and the effective address is the one that the operand names.
-/

set_option autoImplicit false

namespace M6502

def Action.suits (mode : AddressingMode) : Action → Bool
  | .load _ | .store _ | .combine _ | .add | .subtract | .compare _ | .testBits =>
    mode != .implied && mode != .relative && mode != .indirect
  | .modify _ => mode != .relative && mode != .immediate && mode != .indirect
  | .branch _ _ => mode == .relative
  | .jump => mode == .absolute || mode == .indirect
  | .call => mode == .absolute
  | .transfer _ _ | .setStack | .count _ _ | .returnFromCall | .returnFromInterrupt
  | .pushAccumulator | .pullAccumulator | .pushStatus | .pullStatus | .setFlag _ _ | .halt
  | .idle => mode == .implied

theorem suited_rows : ∀ r ∈ instructionTable, r.mnemonic.action.suits r.mode = true := by
  decide +kernel

theorem Encoding.suited (e : Encoding) : e.mnemonic.action.suits e.mode = true :=
  suited_rows e.toRow e.documented

namespace AddressingMode

def wordAt (peek : UInt16 → UInt8) (lo hi : Nat) : Nat :=
  (peek (UInt16.ofNat lo)).toNat + 256 * (peek (UInt16.ofNat hi)).toNat

def named? (mode : AddressingMode) (regs : Registers) (peek : UInt16 → UInt8) (v : UInt16) :
    Option Nat :=
  match mode with
  | .implied | .relative | .immediate => none
  | .zeroPage | .absolute => some v.toNat
  | .zeroPageX => some ((v.toNat + regs.x.toNat) % 0x100)
  | .zeroPageY => some ((v.toNat + regs.y.toNat) % 0x100)
  | .absoluteX => some ((v.toNat + regs.x.toNat) % 0x10000)
  | .absoluteY => some ((v.toNat + regs.y.toNat) % 0x10000)
  -- the second byte of the pointer stays within the page of the first
  | .indirect => some (wordAt peek v.toNat (v.toNat / 0x100 * 0x100 + (v.toNat + 1) % 0x100))
  | .indirectX =>
    some (wordAt peek ((v.toNat + regs.x.toNat) % 0x100) ((v.toNat + regs.x.toNat + 1) % 0x100))
  | .indirectY => some ((wordAt peek v.toNat ((v.toNat + 1) % 0x100) + regs.y.toNat) % 0x10000)

theorem toNat_word_peek {peek : UInt16 → UInt8} {a b : UInt16} {lo hi : Nat} (ha : a.toNat = lo)
    (hb : b.toNat = hi) : (word (peek a) (peek b)).toNat = wordAt peek lo hi := by
  rw [toNat_word, wordAt, ← ha, ← hb, UInt16.ofNat_toNat, UInt16.ofNat_toNat]

theorem toNat_pointer {peek : UInt16 → UInt8} {zp : UInt8} {lo hi : Nat} (ha : zp.toNat = lo)
    (hb : (zp.toNat + 1) % 0x100 = hi) : (pointer peek zp).toNat = wordAt peek lo hi := by
  refine toNat_word_peek ?_ ?_
  · rw [UInt8.toNat_toUInt16, ha]
  · rw [UInt8.toNat_toUInt16, UInt8.toNat_add, ← hb]
    rfl

/-- The effective address is the one that the operand names. -/
theorem toNat_effective {mode : AddressingMode} {regs : Registers} {peek : UInt16 → UInt8}
    {v : UInt16} (hv : mode.size = 2 → v.toNat ≤ 0xFF) {n : Nat}
    (h : mode.named? regs peek v = some n) : (mode.effective regs peek v).toNat = n := by
  have hlow (hs : mode.size = 2) : (lowByte v).toNat = v.toNat := by
    have hv := hv hs
    rw [toNat_lowByte]
    omega
  cases mode with
  | implied | relative | immediate => contradiction
  | zeroPage =>
    cases h
    exact (UInt8.toNat_toUInt16 _).trans (hlow rfl)
  | zeroPageX =>
    cases h
    rw [effective, UInt8.toNat_toUInt16, UInt8.toNat_add, hlow rfl]
  | zeroPageY =>
    cases h
    rw [effective, UInt8.toNat_toUInt16, UInt8.toNat_add, hlow rfl]
  | absolute =>
    cases h
    rfl
  | absoluteX =>
    cases h
    rw [effective, UInt16.toNat_add, UInt8.toNat_toUInt16]
  | absoluteY =>
    cases h
    rw [effective, UInt16.toNat_add, UInt8.toNat_toUInt16]
  | indirect =>
    cases h
    refine toNat_word_peek rfl ?_
    rw [toNat_word, UInt8.toNat_add, toNat_lowByte, toNat_highByte, Nat.mod_add_mod, Nat.add_comm,
      Nat.mul_comm]
    rfl
  | indirectX =>
    cases h
    refine toNat_pointer ?_ ?_
    · rw [UInt8.toNat_add, hlow rfl]
    · rw [UInt8.toNat_add, hlow rfl, Nat.mod_add_mod]
  | indirectY =>
    cases h
    rw [effective, UInt16.toNat_add, UInt8.toNat_toUInt16, toNat_pointer (hlow rfl)]
    rw [hlow rfl]

end AddressingMode

namespace Registers

variable (regs : Registers) (reg : Register) (b : UInt8)

@[simp]
theorem pc_put : (regs.put reg b).pc = regs.pc := by
  cases reg <;> rfl

@[simp]
theorem ad_put : (regs.put reg b).ad = regs.ad := by
  cases reg <;> rfl

@[simp]
theorem pc_added : (regs.added b).pc = regs.pc := by
  rw [added, pc_put]
  rfl

@[simp]
theorem ad_added : (regs.added b).ad = regs.ad := by
  rw [added, ad_put]
  rfl

end Registers

namespace Mnemonic

def transfersControl (m : Mnemonic) : Bool :=
  m.isBranch || m == .jmp || m == .jsr || m == .rts || m == .rti

def condition? : Mnemonic → Option (Flag × Bool)
  | .bpl => some (.negative, false)
  | .bmi => some (.negative, true)
  | .bvc => some (.overflow, false)
  | .bvs => some (.overflow, true)
  | .bcc => some (.carry, false)
  | .bcs => some (.carry, true)
  | .bne => some (.zero, false)
  | .beq => some (.zero, true)
  | _ => none

theorem action_eq_branch {m : Mnemonic} {f : Flag} {on : Bool} :
    m.action = .branch f on ↔ m.condition? = some (f, on) := by
  cases m <;> simp [action, condition?]

theorem action_eq_jump {m : Mnemonic} : m.action = .jump ↔ m = .jmp := by
  cases m <;> decide

theorem action_eq_call {m : Mnemonic} : m.action = .call ↔ m = .jsr := by
  cases m <;> decide

theorem action_eq_returnFromCall {m : Mnemonic} : m.action = .returnFromCall ↔ m = .rts := by
  cases m <;> decide

theorem action_eq_returnFromInterrupt {m : Mnemonic} :
    m.action = .returnFromInterrupt ↔ m = .rti := by
  cases m <;> decide

end Mnemonic

namespace Action

variable {action : Action} {mode : AddressingMode} {regs : Registers} {peek : UInt16 → UInt8}
  {v : UInt16}

theorem past_of_implied (h : mode = .implied) : regs.pc = (regs.past mode).pc := by
  rw [h, regs.past_implied]

theorem pc_sequential (hs : action.suits mode = true) (hb : ∀ f on, action ≠ .branch f on)
    (hj : action ≠ .jump) (hc : action ≠ .call) (hr : action ≠ .returnFromCall)
    (hi : action ≠ .returnFromInterrupt) :
    (action.outcome mode regs peek v).regs.pc = (regs.past mode).pc := by
  cases action with
  | load r => exact Registers.pc_put ..
  | store r => rfl
  | modify f =>
    by_cases h : mode = .implied
    · rw [outcome, if_pos h]
      exact past_of_implied h
    · rw [outcome, if_neg h]
      rfl
  | combine f => exact Registers.pc_put ..
  | add => exact Registers.pc_added ..
  | subtract => exact Registers.pc_added ..
  | compare r => rfl
  | testBits => rfl
  | branch f on => exact absurd rfl (hb f on)
  | jump => exact absurd rfl hj
  | call => exact absurd rfl hc
  | returnFromCall => exact absurd rfl hr
  | returnFromInterrupt => exact absurd rfl hi
  | transfer src dst => exact (Registers.pc_put ..).trans (past_of_implied (eq_of_beq hs))
  | count r up => exact (Registers.pc_put ..).trans (past_of_implied (eq_of_beq hs))
  | pullAccumulator => exact (Registers.pc_put ..).trans (past_of_implied (eq_of_beq hs))
  | setStack | pushAccumulator | pushStatus | pullStatus | setFlag | halt | idle =>
    exact past_of_implied (eq_of_beq hs)

theorem ad_named (hs : action.suits mode = true) {n : Nat} (h : mode.named? regs peek v = some n) :
    (action.outcome mode regs peek v).regs.ad = mode.effective regs peek v := by
  have hi : mode ≠ .implied := by
    rintro rfl
    contradiction
  cases action with
  | load r => exact Registers.ad_put ..
  | store r => rfl
  | modify f =>
    rw [outcome, if_neg hi]
    rfl
  | combine f => exact Registers.ad_put ..
  | add => exact Registers.ad_added ..
  | subtract => exact Registers.ad_added ..
  | compare r => rfl
  | testBits => rfl
  | jump => rfl
  | call => rfl
  | branch f on =>
    rw [eq_of_beq hs] at h
    contradiction
  | transfer | setStack | count | returnFromCall | returnFromInterrupt | pushAccumulator
  | pullAccumulator | pushStatus | pullStatus | setFlag | halt | idle =>
    exact absurd (eq_of_beq hs) hi

end Action

structure Encoding.Agrees (e : Encoding) (v : UInt16) (regs : Registers) (peek : UInt16 → UInt8)
    (after : Registers) : Prop where
  sequential : e.mnemonic.transfersControl = false →
    after.pc.toNat = (regs.pc.toNat + e.size) % 0x10000
  branch : ∀ f on, e.mnemonic.condition? = some (f, on) →
    (after.pc.toNat : Int) =
      (regs.pc.toNat + 2 + if regs.flag f = on then (lowByte v).toInt8.toInt else 0) % 0x10000
  jump : e.mnemonic = .jmp ∨ e.mnemonic = .jsr →
    e.mode.named? regs peek v = some after.pc.toNat
  address : ∀ n, e.mode.named? regs peek v = some n → after.ad.toNat = n

theorem Registers.pc_past (regs : Registers) (mode : AddressingMode) :
    (regs.opened.past mode).pc = regs.pc + UInt16.ofNat mode.size := by
  rw [AddressingMode.size, UInt16.ofNat_add, UInt16.add_comm (UInt16.ofNat _), ← UInt16.add_assoc]
  rfl

/-- Where no control is transferred, execution goes on behind the instruction. -/
theorem Mnemonic.pc_sequential {m : Mnemonic} {mode : AddressingMode}
    (hs : m.action.suits mode = true) (ht : m.transfersControl = false) {regs : Registers}
    {peek : UInt16 → UInt8} {v : UInt16} :
    (m.action.outcome mode regs.opened peek v).regs.pc = regs.pc + UInt16.ofNat mode.size := by
  simp only [transfersControl, Bool.or_eq_false_iff, beq_eq_false_iff_ne] at ht
  obtain ⟨⟨⟨⟨hbranch, hjmp⟩, hjsr⟩, hrts⟩, hrti⟩ := ht
  have hb (f : Flag) (on : Bool) (ha : m.action = .branch f on) : False := by
    rw [m.branch_iff.1 ⟨f, on, ha⟩] at hbranch
    contradiction
  rw [Action.pc_sequential hs hb (mt action_eq_jump.1 hjmp) (mt action_eq_call.1 hjsr)
    (mt action_eq_returnFromCall.1 hrts) (mt action_eq_returnFromInterrupt.1 hrti),
    Registers.pc_past]

theorem Encoding.named_of_jump {e : Encoding} {v : UInt16} (hv : e.Holds v) {regs : Registers}
    {peek : UInt16 → UInt8} (hm : e.mode = .absolute ∨ e.mode = .indirect) :
    e.mode.named? regs peek v = some (e.mode.effective regs peek v).toNat := by
  cases hn : e.mode.named? regs peek v with
  | some n => rw [AddressingMode.toNat_effective hv hn]
  | none => rcases hm with hm | hm <;> rw [hm] at hn <;> contradiction

theorem Mnemonic.regs_branch {m : Mnemonic} {f : Flag} {on : Bool} (ha : m.action = .branch f on)
    {mode : AddressingMode} {regs : Registers} {peek : UInt16 → UInt8} {v : UInt16} :
    (m.action.outcome mode regs.opened peek v).regs =
      { regs.opened.setSigned (lowByte v).toUInt16 with
        pc := if regs.flag f = on then regs.pc + 2 + signExtend (lowByte v) else regs.pc + 2 } := by
  have hbehind : (regs.opened.past .relative).pc = regs.pc + 2 := regs.pc_past .relative
  rw [ha, Action.outcome, ← hbehind]
  by_cases hflag : regs.flag f = on
  · have htaken : (regs.opened.flag f == on) = true := beq_iff_eq.2 hflag
    simp only [htaken, if_true, if_pos hflag]
    rfl
  · have hskipped : (regs.opened.flag f == on) = false := beq_eq_false_iff_ne.2 hflag
    simp only [hskipped, if_neg hflag]
    rfl

theorem Encoding.mode_of_call {e : Encoding} (h : e.mnemonic = .jsr) : e.mode = .absolute := by
  have hs := e.suited
  rw [h] at hs
  exact eq_of_beq hs

/-- A call pushes the address of its own last byte. -/
theorem back_of_call (pc : UInt16) : pc + 1 + 2 - 1 = pc + 2 := by
  rw [UInt16.add_assoc, UInt16.sub_eq_iff_eq_add, UInt16.add_assoc]
  rfl

theorem Encoding.outcome_call {e : Encoding} (h : e.mnemonic = .jsr) (regs : Registers)
    (peek : UInt16 → UInt8) (v : UInt16) :
    ∃ aimed : Registers, (∀ r, aimed.get r = regs.get r) ∧
      (e.outcome regs peek v).stores = [⟨stackCell regs.sp, highByte (regs.pc + 2), aimed⟩,
        ⟨stackCell (regs.sp - 1), lowByte (regs.pc + 2), { aimed with sp := regs.sp - 1 }⟩] ∧
      (e.outcome regs peek v).regs.pc = v := by
  rw [outcome, h, mode_of_call h, ← back_of_call]
  exact ⟨_, fun r => by cases r <;> rfl, rfl, rfl⟩

theorem Encoding.outcome_agrees {e : Encoding} {v : UInt16} (hv : e.Holds v) (regs : Registers)
    (peek : UInt16 → UInt8) : e.Agrees v regs peek (e.outcome regs peek v).regs := by
  have hs := e.suited
  have hnamed : e.mode.named? regs peek v = e.mode.named? regs.opened peek v := by
    cases e.mode <;> rfl
  constructor
  case sequential =>
    intro ht
    rw [outcome, Mnemonic.pc_sequential hs ht, UInt16.toNat_add, UInt16.toNat_ofNat',
      Nat.add_mod_mod]
    rfl
  case branch =>
    intro f on hcondition
    have htwo : (2 : UInt16).toNat = 2 := rfl
    rw [outcome, Mnemonic.regs_branch (Mnemonic.action_eq_branch.2 hcondition)]
    by_cases hflag : regs.flag f = on
    · rw [if_pos hflag, if_pos hflag, toNat_branchTarget]
    · rw [if_neg hflag, if_neg hflag, UInt16.toNat_add, htwo]
      omega
  case jump =>
    rintro (hj | hj)
    · have ha := Mnemonic.action_eq_jump.2 hj
      rw [ha, Action.suits, Bool.or_eq_true, beq_iff_eq, beq_iff_eq] at hs
      rw [hnamed, named_of_jump hv hs, outcome, ha]
      rfl
    · have ha := Mnemonic.action_eq_call.2 hj
      rw [ha, Action.suits, beq_iff_eq] at hs
      rw [hnamed, named_of_jump hv (.inl hs), outcome, ha]
      rfl
  case address =>
    intro n hn
    rw [hnamed] at hn
    rw [outcome, Action.ad_named hs hn]
    exact AddressingMode.toNat_effective hv hn

theorem Instruction.operandOf?_exists {e : Encoding} {rest : List UInt8}
    (h : e.size ≤ rest.length + 1) : ∃ operand, operandOf? e.size rest = some operand := by
  rcases e.size_cases with hs | hs | hs
  · rw [hs]
    exact ⟨.none, rfl⟩
  · rw [hs] at h ⊢
    match rest, h with
    | lo :: _, _ => exact ⟨.value lo.toUInt16, rfl⟩
  · rw [hs] at h ⊢
    match rest, h with
    | lo :: hi :: _, _ => exact ⟨.value (word lo hi), rfl⟩

theorem Instruction.decodeAt?_exists {bytes : Array UInt8} {offset : Nat} {e : Encoding}
    (hop : (bytes[offset]?).bind Encoding.ofOpcode? = some e) (hin : offset + e.size ≤ bytes.size) :
    ∃ operand, decodeAt? bytes offset = some ⟨e, operand⟩ := by
  have hpos := e.mode.size_pos
  have hsize : e.size = e.mode.size := rfl
  have hlt : offset < bytes.size := by omega
  rw [Array.getElem?_eq_getElem hlt, Option.bind_some] at hop
  have hcut : (bytes.extract offset (offset + 3)).toList =
      bytes[offset] :: (bytes.toList.drop (offset + 1)).take 2 := by
    rw [Array.toList_extract, List.extract_eq_take_drop, Nat.add_sub_cancel_left,
      List.drop_eq_getElem_cons (by rwa [Array.length_toList]), List.take_succ_cons,
      Array.getElem_toList]
  have hroom : e.size ≤ ((bytes.toList.drop (offset + 1)).take 2).length + 1 := by
    have hle := e.mode.size_le
    rw [List.length_take, List.length_drop, Array.length_toList]
    omega
  obtain ⟨operand, ho⟩ := operandOf?_exists hroom
  refine ⟨operand, ?_⟩
  rw [decodeAt?, hcut, decode?, hop]
  simp only [ho, Option.map_some]

namespace FlatMemory

variable {mem : FlatMemory} {addr : UInt16}

theorem index?_add (hbase : mem.base ≤ addr) {i : Nat} (hwrap : addr.toNat + i < 0x10000)
    (hin : addr.toNat - mem.base.toNat + i < mem.cells.size) :
    mem.index? (addr + UInt16.ofNat i) = some (addr.toNat - mem.base.toNat + i) := by
  have hle := UInt16.le_iff_toNat_le.1 hbase
  rw [index?_eq_some, toNat_add_ofNat hwrap]
  omega

theorem shows_extract (hbase : mem.base ≤ addr) {n : Nat} (hwrap : addr.toNat + n ≤ 0x10000)
    (hin : addr.toNat - mem.base.toNat + n ≤ mem.cells.size) :
    Bus.Shows mem addr (mem.cells.extract (addr.toNat - mem.base.toNat)
      (addr.toNat - mem.base.toNat + n)).toList := by
  rw [Bus.shows_iff]
  intro i hi
  rw [Array.length_toList, Array.size_extract] at hi
  have hlt : addr.toNat - mem.base.toNat + i < mem.cells.size := by omega
  rw [peek_eq, get_of_index? (index?_add hbase (by omega) hlt), Array.getElem?_toList,
    Array.getElem?_extract, if_pos (by omega), Array.getD_eq_getD_getElem?,
    Array.getElem?_eq_getElem hlt]
  rfl

end FlatMemory

/-- The instruction at the program counter is decoded from memory, and a step that succeeds
answers that instruction and goes on as its decoded operand says. -/
theorem step_agrees_with_decoding (regs : Registers) (mem : FlatMemory) (e : Encoding)
    (hop : Encoding.ofOpcode? (mem.get regs.pc) = some e) (hbase : mem.base ≤ regs.pc)
    (hin : regs.pc.toNat - mem.base.toNat + e.size ≤ mem.cells.size)
    (hwrap : regs.pc.toNat + e.size ≤ 0x10000) :
    ∃ v, Instruction.decodeAt? mem.cells (regs.pc.toNat - mem.base.toNat) =
        some ⟨e, e.literalOperand v⟩ ∧ e.Holds v ∧
      ∀ d m, step ⟨regs, mem⟩ = .ok d m → d = e ∧ e.Agrees v regs mem.get m.regs := by
  have hpos : 0 < e.size := e.mode.size_pos
  have hlt : regs.pc.toNat - mem.base.toNat < mem.cells.size := by omega
  have hcell : mem.cells[regs.pc.toNat - mem.base.toNat]? = some (mem.get regs.pc) := by
    have hindex := FlatMemory.index?_add hbase (i := 0) regs.pc.toNat_lt hlt
    have hzero : regs.pc + UInt16.ofNat 0 = regs.pc := UInt16.add_zero _
    rw [hzero, Nat.add_zero] at hindex
    rw [FlatMemory.get_of_index? hindex, Array.getD_eq_getD_getElem?, Array.getElem?_eq_getElem hlt]
    rfl
  obtain ⟨operand, hdecode⟩ := Instruction.decodeAt?_exists
    (by rw [hcell, Option.bind_some, hop]) hin
  obtain ⟨⟨v, hv, ho⟩, hbytes, -⟩ := Instruction.decodeAt?_eq_some hdecode
  have ho : operand = e.literalOperand v := ho
  subst ho
  have hshows := FlatMemory.shows_extract hbase hwrap hin
  have hsize : (⟨e, e.literalOperand v⟩ : Instruction).size = e.size := rfl
  rw [hsize, Instruction.literalBytes_literal] at hbytes
  rw [hbytes] at hshows
  refine ⟨v, hdecode, hv, ?_⟩
  intro d m hstep
  obtain ⟨hd, hregs⟩ := step_ok hshows hstep
  rw [hregs]
  exact ⟨hd, Encoding.outcome_agrees hv regs _⟩

def pageEndJump : FlatMemory :=
  ⟨⟨[0x6C, 0xFF, 0x01] ++ List.replicate 252 0 ++ [0x34]⟩, 0x0100⟩

/-- The pointer of that jump goes on at the start of the page, with the opcode itself. -/
theorem step_agrees_with_decoding_page_end :
    ∃ d m, step ⟨.atReset 0x0100, pageEndJump⟩ = .ok d m ∧ d = .of .jmp .indirect ∧
      m.regs.pc.toNat = 0x6C34 := by
  have hok : ∃ d m, step ⟨.atReset 0x0100, pageEndJump⟩ = .ok d m := by
    have hb : (match step ⟨.atReset 0x0100, pageEndJump⟩ with
      | .ok _ _ => true
      | .error _ _ => false) = true := by decide +kernel
    revert hb
    cases step ⟨.atReset 0x0100, pageEndJump⟩ with
    | ok d m => exact fun _ => ⟨d, m, rfl⟩
    | error t m => nofun
  obtain ⟨d, m, hstep⟩ := hok
  obtain ⟨v, hdecode, -, hall⟩ := step_agrees_with_decoding (.atReset 0x0100) pageEndJump
    (.of .jmp .indirect) (by decide +kernel) (by decide +kernel) (by decide +kernel)
    (by decide +kernel)
  have hv : v = 0x01FF := by
    have hliteral : Instruction.decodeAt? pageEndJump.cells 0 =
      some ⟨.of .jmp .indirect, .value 0x01FF⟩ := by decide +kernel
    have hoperand := congrArg Instruction.operand (Option.some.inj (hdecode.symm.trans hliteral))
    have hthree : (Encoding.of .jmp .indirect).size ≠ 1 := by decide +kernel
    rw [Encoding.literalOperand_value hthree] at hoperand
    exact Operand.value.inj hoperand
  obtain ⟨hd, hagrees⟩ := hall d m hstep
  have hjump := hagrees.jump (.inl (by decide +kernel))
  have htarget : (Encoding.of .jmp .indirect).mode.named? (.atReset 0x0100) pageEndJump.get 0x01FF =
    some 0x6C34 := by decide +kernel
  rw [hv, htarget] at hjump
  exact ⟨d, m, hstep, hd, (Option.some.inj hjump).symm⟩

end M6502
