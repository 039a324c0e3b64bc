import M6502.Processor.Step
import M6502.Proofs.Bus.Cells
import M6502.Proofs.Disassembly.Decoding

/-!
# Outcomes

Every instruction reads first and writes last. Its outcome is therefore a
function of the registers and of what the bus shows: the registers that it
leaves, and the writes that it asks for. A step carries out the outcome of
the encoding that stands at the program counter.
-/

set_option autoImplicit false

namespace M6502

namespace AddressingMode

def operandBytes (mode : AddressingMode) (v : UInt16) : List UInt8 :=
  [lowByte v, highByte v].take mode.operandSize

def pointer (peek : UInt16 → UInt8) (zp : UInt8) : UInt16 :=
  word (peek zp.toUInt16) (peek (zp + 1).toUInt16)

def effective (mode : AddressingMode) (regs : Registers) (peek : UInt16 → UInt8) (v : UInt16) :
    UInt16 :=
  match mode with
  | .implied | .relative | .immediate => regs.pc
  | .zeroPage => (lowByte v).toUInt16
  | .zeroPageX => (lowByte v + regs.x).toUInt16
  | .zeroPageY => (lowByte v + regs.y).toUInt16
  | .absolute => v
  | .absoluteX => v + regs.x.toUInt16
  | .absoluteY => v + regs.y.toUInt16
  | .indirect => word (peek v) (peek (word (lowByte v + 1) (highByte v)))
  | .indirectX => pointer peek (lowByte v + regs.x)
  | .indirectY => pointer peek (lowByte v) + regs.y.toUInt16

end AddressingMode

def Registers.past (regs : Registers) (mode : AddressingMode) : Registers :=
  { regs with pc := regs.pc + UInt16.ofNat mode.operandSize }

theorem Registers.past_implied (regs : Registers) : regs.past .implied = regs := by
  simp [past, AddressingMode.operandSize]

structure Store where
  addr : UInt16
  value : UInt8
  refused : Registers

structure Outcome where
  stores : List Store
  regs : Registers

namespace Outcome

variable {β : Type} [Bus β]

def commit (final : Registers) : List Store → β → EStateM.Result Trap (Machine β) Unit
  | [], bus => .ok () ⟨final, bus⟩
  | s :: stores, bus =>
    match Bus.write s.addr s.value bus with
    | (.ok _, bus) => commit final stores bus
    | (.error cause, bus) => .error (.bus s.addr cause) ⟨s.refused, bus⟩

def stored : List Store → (UInt16 → UInt8) → UInt16 → UInt8
  | [], peek => peek
  | s :: stores, peek => stored stores (Function.update peek s.addr s.value)

theorem regs_of_commit {final : Registers} {stores : List Store} {bus : β} {m : Machine β}
    (h : commit final stores bus = .ok () m) : m.regs = final := by
  induction stores generalizing bus with
  | nil =>
    rw [commit] at h
    cases h
    rfl
  | cons s stores ih =>
    rw [commit] at h
    split at h
    · exact ih h
    · contradiction

theorem trap_of_commit {final : Registers} {stores : List Store} {bus : β} {m : Machine β}
    {t : Trap} (h : commit final stores bus = .error t m) :
    ∃ s ∈ stores, ∃ cause, t = .bus s.addr cause := by
  induction stores generalizing bus with
  | nil => contradiction
  | cons s stores ih =>
    rw [commit] at h
    split at h
    · obtain ⟨r, hr, hcause⟩ := ih h
      exact ⟨r, List.mem_cons_of_mem _ hr, hcause⟩
    · rename_i cause next _
      cases h
      exact ⟨s, List.mem_cons_self, cause, rfl⟩

theorem commit_cells [Storage β] (final : Registers) {stores : List Store} {bus : β}
    (h : ∀ s ∈ stores, Storage.Cell bus s.addr) :
    ∃ next, commit final stores bus = .ok () ⟨final, next⟩ ∧
      Bus.peek next = stored stores (Bus.peek bus) ∧ Storage.Cell next = Storage.Cell bus := by
  induction stores generalizing bus with
  | nil => exact ⟨bus, rfl, rfl, rfl⟩
  | cons s stores ih =>
    rw [List.forall_mem_cons] at h
    obtain ⟨mid, hwrite, hpeek, hcell⟩ := Storage.write_cell h.1 s.value
    obtain ⟨next, hcommit, hpeek', hcell'⟩ := ih fun t ht => by
      rw [hcell]
      exact h.2 t ht
    refine ⟨next, ?_, ?_, hcell'.trans hcell⟩
    · rw [commit, hwrite]
      exact hcommit
    · rw [hpeek', hpeek, stored]

end Outcome

def Action.outcome (action : Action) (mode : AddressingMode) (regs : Registers)
    (peek : UInt16 → UInt8) (v : UInt16) : Outcome :=
  let addr := mode.effective regs peek v
  let aimed := { regs.past mode with ad := addr }
  match action with
  | .load r => ⟨[], aimed.put r (peek addr)⟩
  | .store r => ⟨[⟨addr, aimed.get r, aimed⟩], aimed⟩
  | .transfer src dst => ⟨[], regs.put dst (regs.get src)⟩
  | .setStack => ⟨[], { regs with sp := regs.x }⟩
  | .count r up => ⟨[], regs.put r (if up then regs.get r + 1 else regs.get r - 1)⟩
  | .modify f =>
    if mode = .implied then
      let (b, r) := regs.modified f regs.a
      ⟨[], { r with a := b }⟩
    else
      let (b, r) := aimed.modified f (peek addr)
      ⟨[⟨addr, b, r⟩], r⟩
  | .combine f => ⟨[], aimed.put .a (f.apply regs.a (peek addr))⟩
  | .add => ⟨[], aimed.added (peek addr)⟩
  | .subtract => ⟨[], aimed.added (~~~peek addr)⟩
  | .compare r => ⟨[], aimed.compared r (peek addr)⟩
  | .testBits => ⟨[], aimed.bitsTested (peek addr)⟩
  | .branch f on =>
    let r := (regs.past .relative).setSigned (lowByte v).toUInt16
    ⟨[], if regs.flag f == on then { r with pc := r.pc + signExtend (lowByte v) } else r⟩
  | .jump => ⟨[], { aimed with pc := addr }⟩
  | .call =>
    let back := aimed.pc - 1
    let once := { aimed with sp := aimed.sp - 1 }
    ⟨[⟨stackCell aimed.sp, highByte back, aimed⟩, ⟨stackCell once.sp, lowByte back, once⟩],
      { once with sp := once.sp - 1, pc := addr }⟩
  | .returnFromCall =>
    let back := word (peek (stackCell (regs.sp + 1))) (peek (stackCell (regs.sp + 1 + 1)))
    ⟨[], { regs with sp := regs.sp + 1 + 1, ad := back, pc := back + 1 }⟩
  | .returnFromInterrupt =>
    let status := Status.pulled (peek (stackCell (regs.sp + 1)))
    let back := word (peek (stackCell (regs.sp + 1 + 1))) (peek (stackCell (regs.sp + 1 + 1 + 1)))
    ⟨[], { regs with status := status, sp := regs.sp + 1 + 1 + 1, ad := back, pc := back }⟩
  | .pushAccumulator => ⟨[⟨stackCell regs.sp, regs.a, regs⟩], { regs with sp := regs.sp - 1 }⟩
  | .pullAccumulator =>
    ⟨[], { regs with sp := regs.sp + 1 }.put .a (peek (stackCell (regs.sp + 1)))⟩
  | .pushStatus =>
    ⟨[⟨stackCell regs.sp, regs.status.pushed true, regs⟩], { regs with sp := regs.sp - 1 }⟩
  | .pullStatus =>
    ⟨[], { regs with
      sp := regs.sp + 1
      status := Status.pulled (peek (stackCell (regs.sp + 1))) }⟩
  | .setFlag f on => ⟨[], regs.setFlag f on⟩
  | .halt => ⟨[], { regs.setFlag .brk true with halted := true }⟩
  | .idle => ⟨[], regs⟩

namespace Exec

variable {β α : Type}

theorem bind_of_ok {γ : Type} {x : Exec β α} {f : α → Exec β γ} {m next : Machine β} {a : α}
    (h : x m = .ok a next) : (x >>= f) m = f a next := by
  show EStateM.bind x f m = _
  rw [EStateM.bind, h]

variable [Bus β] {regs : Registers} {bus : β} {v : UInt16}

theorem fetch_eq {b : UInt8} (h : Bus.peek bus regs.pc = b) :
    (fetch : Exec β UInt8) ⟨regs, bus⟩ =
      .ok b ⟨{ regs with pc := regs.pc + 1 }, (Bus.read regs.pc bus).2⟩ := by
  rw [← h]
  rfl

theorem write_bind {α : Type} (addr : UInt16) (value : UInt8) (f : Unit → Exec β α) :
    (write addr value >>= f) ⟨regs, bus⟩ =
      match Bus.write addr value bus with
      | (.ok _, next) => f () ⟨regs, next⟩
      | (.error cause, next) => .error (.bus addr cause) ⟨regs, next⟩ := by
  show EStateM.bind (write addr value) f ⟨regs, bus⟩ = _
  rw [EStateM.bind, write]
  obtain ⟨answer, next⟩ := Bus.write addr value bus
  cases answer <;> rfl

theorem push_eq (value : UInt8) :
    (push value : Exec β Unit) ⟨regs, bus⟩ =
      Outcome.commit { regs with sp := regs.sp - 1 } [⟨stackCell regs.sp, value, regs⟩] bus :=
  write_bind (stackCell regs.sp) value fun _ => update fun r => { r with sp := r.sp - 1 }

theorem push_bind {α : Type} (value : UInt8) (f : Unit → Exec β α) :
    (push value >>= f) ⟨regs, bus⟩ =
      match Bus.write (stackCell regs.sp) value bus with
      | (.ok _, next) => f () ⟨{ regs with sp := regs.sp - 1 }, next⟩
      | (.error cause, next) => .error (.bus (stackCell regs.sp) cause) ⟨regs, next⟩ := by
  show EStateM.bind (push value) f ⟨regs, bus⟩ = _
  rw [EStateM.bind, push_eq, Outcome.commit]
  obtain ⟨answer, next⟩ := Bus.write (stackCell regs.sp) value bus
  cases answer <;> rfl

variable [Storage β]

theorem fetchWord_eq (h : Bus.Shows bus regs.pc [lowByte v, highByte v]) :
    ∃ next, Bus.Reads bus next ∧ (fetchWord : Exec β UInt16) ⟨regs, bus⟩ =
      .ok v ⟨{ regs with pc := regs.pc + 2 }, next⟩ := by
  obtain ⟨hlo, hhi, -⟩ := h
  have hreads := (Bus.Reads.refl bus).read regs.pc
  refine ⟨_, hreads.read (regs.pc + 1), ?_⟩
  rw [← hreads.peek_eq] at hhi
  rw [fetchWord, bind_of_ok (fetch_eq hlo), bind_of_ok (fetch_eq hhi), word_lowByte_highByte,
    UInt16.add_assoc]
  rfl

variable (regs bus) in
theorem readPair_eq (lo hi : UInt16) :
    ∃ next, Bus.Reads bus next ∧ (readPair lo hi : Exec β UInt16) ⟨regs, bus⟩ =
      .ok (word (Bus.peek bus lo) (Bus.peek bus hi)) ⟨regs, next⟩ := by
  have hreads := (Bus.Reads.refl bus).read lo
  refine ⟨_, hreads.read hi, ?_⟩
  rw [← congrFun hreads.peek_eq hi]
  rfl

variable (regs bus) in
theorem readPointer_eq (zp : UInt8) :
    ∃ next, Bus.Reads bus next ∧ (readPointer zp : Exec β UInt16) ⟨regs, bus⟩ =
      .ok (AddressingMode.pointer (Bus.peek bus) zp) ⟨regs, next⟩ :=
  readPair_eq regs bus zp.toUInt16 (zp + 1).toUInt16

/-- The effective address is found without a trace but for the program counter. -/
theorem target_eq {mode : AddressingMode} (hm : mode ≠ .relative)
    (h : Bus.Shows bus regs.pc (mode.operandBytes v)) :
    ∃ next, Bus.Reads bus next ∧ (target mode : Exec β UInt16) ⟨regs, bus⟩ =
      .ok (mode.effective regs (Bus.peek bus) v) ⟨regs.past mode, next⟩ := by
  cases mode with
  | relative => contradiction
  | implied => exact ⟨bus, .refl bus, by rw [regs.past_implied]; rfl⟩
  | immediate => exact ⟨bus, .refl bus, rfl⟩
  | zeroPage =>
    obtain ⟨hlo, -⟩ := h
    exact ⟨_, (Bus.Reads.refl bus).read regs.pc, bind_of_ok (fetch_eq hlo)⟩
  | zeroPageX =>
    obtain ⟨hlo, -⟩ := h
    exact ⟨_, (Bus.Reads.refl bus).read regs.pc, bind_of_ok (fetch_eq hlo)⟩
  | zeroPageY =>
    obtain ⟨hlo, -⟩ := h
    exact ⟨_, (Bus.Reads.refl bus).read regs.pc, bind_of_ok (fetch_eq hlo)⟩
  | absolute => exact fetchWord_eq h
  | absoluteX =>
    obtain ⟨next, hreads, hfetch⟩ := fetchWord_eq h
    exact ⟨next, hreads, bind_of_ok hfetch⟩
  | absoluteY =>
    obtain ⟨next, hreads, hfetch⟩ := fetchWord_eq h
    exact ⟨next, hreads, bind_of_ok hfetch⟩
  | indirect =>
    obtain ⟨next, hreads, hfetch⟩ := fetchWord_eq h
    obtain ⟨last, hreads', hpair⟩ := readPair_eq { regs with pc := regs.pc + 2 } next v
      (word (lowByte v + 1) (highByte v))
    rw [hreads.peek_eq] at hpair
    exact ⟨last, hreads.trans hreads', (bind_of_ok hfetch).trans hpair⟩
  | indirectX =>
    obtain ⟨hlo, -⟩ := h
    have hreads := (Bus.Reads.refl bus).read regs.pc
    obtain ⟨last, hreads', hpair⟩ := readPointer_eq { regs with pc := regs.pc + 1 }
      (Bus.read regs.pc bus).2 (lowByte v + regs.x)
    rw [hreads.peek_eq] at hpair
    exact ⟨last, hreads.trans hreads', (bind_of_ok (fetch_eq hlo)).trans hpair⟩
  | indirectY =>
    obtain ⟨hlo, -⟩ := h
    have hreads := (Bus.Reads.refl bus).read regs.pc
    obtain ⟨last, hreads', hpair⟩ := readPointer_eq { regs with pc := regs.pc + 1 }
      (Bus.read regs.pc bus).2 (lowByte v)
    rw [hreads.peek_eq] at hpair
    exact ⟨last, hreads.trans hreads', (bind_of_ok (fetch_eq hlo)).trans (bind_of_ok hpair)⟩

theorem address_eq {mode : AddressingMode} (hm : mode ≠ .relative)
    (h : Bus.Shows bus regs.pc (mode.operandBytes v)) :
    ∃ next, Bus.Reads bus next ∧ (address mode : Exec β UInt16) ⟨regs, bus⟩ =
      .ok (mode.effective regs (Bus.peek bus) v)
        ⟨{ regs.past mode with ad := mode.effective regs (Bus.peek bus) v }, next⟩ := by
  obtain ⟨next, hreads, htarget⟩ := target_eq hm h
  exact ⟨next, hreads, bind_of_ok htarget⟩

theorem operand_eq {mode : AddressingMode} (hm : mode ≠ .relative)
    (h : Bus.Shows bus regs.pc (mode.operandBytes v)) :
    ∃ next, Bus.Reads bus next ∧ (operand mode : Exec β UInt8) ⟨regs, bus⟩ =
      .ok (Bus.peek bus (mode.effective regs (Bus.peek bus) v))
        ⟨{ regs.past mode with ad := mode.effective regs (Bus.peek bus) v }, next⟩ := by
  obtain ⟨next, hreads, haddress⟩ := address_eq hm h
  refine ⟨_, hreads.read (mode.effective regs (Bus.peek bus) v), ?_⟩
  rw [operand, bind_of_ok haddress, ← hreads.peek_eq]
  rfl

variable (regs bus) in
theorem pullAddress_eq :
    ∃ next, Bus.Reads bus next ∧ (Action.pullAddress : Exec β UInt16) ⟨regs, bus⟩ =
      .ok (word (Bus.peek bus (stackCell (regs.sp + 1)))
          (Bus.peek bus (stackCell (regs.sp + 1 + 1))))
        ⟨{ regs with
          sp := regs.sp + 1 + 1
          ad := word (Bus.peek bus (stackCell (regs.sp + 1)))
            (Bus.peek bus (stackCell (regs.sp + 1 + 1))) }, next⟩ := by
  have hreads := (Bus.Reads.refl bus).read (stackCell (regs.sp + 1))
  refine ⟨_, hreads.read (stackCell (regs.sp + 1 + 1)), ?_⟩
  -- the low byte of the address stays while the high byte is put in
  have hword (lo hi : UInt8) (ad : UInt16) :
      word (lowByte (word lo (highByte ad))) hi = word lo hi := by rw [lowByte_word]
  rw [← congrFun hreads.peek_eq (stackCell (regs.sp + 1 + 1)), ← hword _ _ regs.ad]
  rfl

end Exec

open Exec Storage

variable {β : Type} [Bus β] [Storage β] {regs : Registers} {bus : β} {v : UInt16}

/-- An action reads, and then makes the writes of its outcome. -/
theorem Action.run_eq {action : Action} {mode : AddressingMode}
    (hb : (∃ f on, action = .branch f on) ↔ mode = .relative)
    (h : Bus.Shows bus regs.pc (mode.operandBytes v)) :
    ∃ next, Bus.Reads bus next ∧ action.run mode ⟨regs, bus⟩ =
      Outcome.commit (action.outcome mode regs (Bus.peek bus) v).regs
        (action.outcome mode regs (Bus.peek bus) v).stores next := by
  cases action with
  | load r =>
    obtain ⟨next, hreads, hop⟩ := operand_eq (mt hb.2 (by simp)) h
    exact ⟨next, hreads, bind_of_ok hop⟩
  | store r =>
    obtain ⟨next, hreads, haddr⟩ := address_eq (mt hb.2 (by simp)) h
    exact ⟨next, hreads, bind_of_ok haddr⟩
  | transfer src dst => exact ⟨bus, .refl bus, rfl⟩
  | setStack => exact ⟨bus, .refl bus, rfl⟩
  | count r up => exact ⟨bus, .refl bus, rfl⟩
  | modify f =>
    by_cases hi : mode = .implied
    · exact ⟨bus, .refl bus, by simp only [run, outcome, if_pos hi]; rfl⟩
    · obtain ⟨next, hreads, haddr⟩ := address_eq (mt hb.2 (by simp)) h
      refine ⟨_, hreads.read (mode.effective regs (Bus.peek bus) v), ?_⟩
      simp only [run, outcome, if_neg hi]
      rw [bind_of_ok haddr, ← congrFun hreads.peek_eq]
      rfl
  | combine f =>
    obtain ⟨next, hreads, hop⟩ := operand_eq (mt hb.2 (by simp)) h
    exact ⟨next, hreads, bind_of_ok hop⟩
  | add =>
    obtain ⟨next, hreads, hop⟩ := operand_eq (mt hb.2 (by simp)) h
    exact ⟨next, hreads, (bind_of_ok hop).trans rfl⟩
  | subtract =>
    obtain ⟨next, hreads, hop⟩ := operand_eq (mt hb.2 (by simp)) h
    exact ⟨next, hreads, (bind_of_ok hop).trans rfl⟩
  | compare r =>
    obtain ⟨next, hreads, hop⟩ := operand_eq (mt hb.2 (by simp)) h
    exact ⟨next, hreads, bind_of_ok hop⟩
  | testBits =>
    obtain ⟨next, hreads, hop⟩ := operand_eq (mt hb.2 (by simp)) h
    exact ⟨next, hreads, bind_of_ok hop⟩
  | branch f on =>
    obtain rfl := hb.1 ⟨f, on, rfl⟩
    obtain ⟨hlo, -⟩ := h
    exact ⟨_, (Bus.Reads.refl bus).read regs.pc, bind_of_ok (fetch_eq hlo)⟩
  | jump =>
    obtain ⟨next, hreads, haddr⟩ := address_eq (mt hb.2 (by simp)) h
    exact ⟨next, hreads, bind_of_ok haddr⟩
  | call =>
    obtain ⟨next, hreads, haddr⟩ := address_eq (mt hb.2 (by simp)) h
    refine ⟨next, hreads, (bind_of_ok haddr).trans ((push_bind _ _).trans ?_)⟩
    rw [outcome, Outcome.commit]
    split
    · rename_i mid hwrite
      simp only [hwrite]
      exact push_bind _ _
    · rename_i cause mid hwrite
      simp only [hwrite]
  | returnFromCall =>
    obtain ⟨next, hreads, hpull⟩ := pullAddress_eq regs bus
    exact ⟨next, hreads, bind_of_ok hpull⟩
  | returnFromInterrupt =>
    have hreads := (Bus.Reads.refl bus).read (stackCell (regs.sp + 1))
    obtain ⟨next, hreads', hpull⟩ := pullAddress_eq
      { regs with
        sp := regs.sp + 1
        status := .pulled (Bus.peek bus (stackCell (regs.sp + 1))) }
      (Bus.read (stackCell (regs.sp + 1)) bus).2
    rw [hreads.peek_eq] at hpull
    refine ⟨next, hreads.trans hreads', ?_⟩
    show (pullAddress >>= fun addr => update fun r => { r with pc := addr } : Exec β Unit)
      ⟨{ regs with
          sp := regs.sp + 1
          status := .pulled (Bus.peek bus (stackCell (regs.sp + 1))) },
        (Bus.read (stackCell (regs.sp + 1)) bus).2⟩ = _
    exact bind_of_ok hpull
  | pushAccumulator => exact ⟨bus, .refl bus, push_eq regs.a⟩
  | pullAccumulator => exact ⟨_, (Bus.Reads.refl bus).read _, rfl⟩
  | pushStatus => exact ⟨bus, .refl bus, push_eq (regs.status.pushed true)⟩
  | pullStatus => exact ⟨_, (Bus.Reads.refl bus).read _, rfl⟩
  | setFlag f on => exact ⟨bus, .refl bus, rfl⟩
  | halt => exact ⟨bus, .refl bus, rfl⟩
  | idle => exact ⟨bus, .refl bus, rfl⟩

theorem Mnemonic.branch_iff (m : Mnemonic) :
    (∃ f on, m.action = .branch f on) ↔ m.isBranch = true := by
  cases m <;> simp [action, isBranch]

theorem Encoding.branch_iff (e : Encoding) :
    (∃ f on, e.mnemonic.action = .branch f on) ↔ e.mode = .relative :=
  e.mnemonic.branch_iff.trans e.relative_iff.symm

def Registers.opened (regs : Registers) : Registers :=
  { regs with pc := regs.pc + 1, halted := false }

def Encoding.outcome (e : Encoding) (regs : Registers) (peek : UInt16 → UInt8) (v : UInt16) :
    Outcome :=
  e.mnemonic.action.outcome e.mode regs.opened peek v

omit [Storage β] in
theorem step_opcode : step ⟨regs, bus⟩ =
    (match Encoding.ofOpcode? (Bus.peek bus regs.pc) with
      | none => throw (.illegalOpcode regs.pc (Bus.peek bus regs.pc))
      | some e => do
        update fun r => { r with pc := regs.pc + 1, halted := false }
        e.mnemonic.perform e.mode
        return e : Exec β Encoding) ⟨regs, (Bus.read regs.pc bus).2⟩ :=
  rfl

omit [Storage β] in
theorem step_undocumented (h : Encoding.ofOpcode? (Bus.peek bus regs.pc) = none) :
    step ⟨regs, bus⟩ = .error (.illegalOpcode regs.pc (Bus.peek bus regs.pc))
      ⟨regs, (Bus.read regs.pc bus).2⟩ := by
  rw [step_opcode, h]
  rfl

omit [Storage β] in
theorem step_documented {e : Encoding} (h : Encoding.ofOpcode? (Bus.peek bus regs.pc) = some e) :
    step ⟨regs, bus⟩ = (e.mnemonic.perform e.mode >>= fun _ => pure e : Exec β Encoding)
      ⟨regs.opened, (Bus.read regs.pc bus).2⟩ := by
  rw [step_opcode, h]
  rfl

/-- A step at the bytes of an encoding reads, and then makes the writes of its outcome. -/
theorem step_eq {e : Encoding} (h : Bus.Shows bus regs.pc (e.bytes v)) :
    ∃ next, Bus.Reads bus next ∧ step ⟨regs, bus⟩ =
      match Outcome.commit (e.outcome regs (Bus.peek bus) v).regs
        (e.outcome regs (Bus.peek bus) v).stores next with
      | .ok _ m => .ok e m
      | .error t m => .error t m := by
  obtain ⟨hop, hrest⟩ : Bus.peek bus regs.pc = e.opcode ∧
      Bus.Shows bus regs.opened.pc (e.mode.operandBytes v) := h
  have hreads := (Bus.Reads.refl bus).read regs.pc
  rw [← hreads.shows] at hrest
  obtain ⟨next, hreads', hrun⟩ := Action.run_eq e.branch_iff hrest
  rw [hreads.peek_eq] at hrun
  refine ⟨next, hreads.trans hreads', ?_⟩
  rw [step_documented (hop ▸ e.ofOpcode?_opcode)]
  show EStateM.bind (e.mnemonic.perform e.mode) (fun _ => pure e)
    ⟨regs.opened, (Bus.read regs.pc bus).2⟩ = _
  rw [EStateM.bind, Mnemonic.perform, hrun, Encoding.outcome]
  cases Outcome.commit _ _ next <;> rfl

theorem step_ok {e d : Encoding} {m : Machine β} (h : Bus.Shows bus regs.pc (e.bytes v))
    (hs : step ⟨regs, bus⟩ = .ok d m) :
    d = e ∧ m.regs = (e.outcome regs (Bus.peek bus) v).regs := by
  obtain ⟨next, -, hstep⟩ := step_eq h
  rw [hs] at hstep
  split at hstep
  · rename_i last hcommit
    cases hstep
    exact ⟨rfl, Outcome.regs_of_commit hcommit⟩
  · contradiction

theorem step_quiet {e : Encoding} (h : Bus.Shows bus regs.pc (e.bytes v))
    (hquiet : (e.outcome regs (Bus.peek bus) v).stores = []) :
    ∃ next, Same bus next ∧
      step ⟨regs, bus⟩ = .ok e ⟨(e.outcome regs (Bus.peek bus) v).regs, next⟩ := by
  obtain ⟨next, hreads, hstep⟩ := step_eq h
  rw [hquiet] at hstep
  exact ⟨next, hreads.same, hstep⟩

/-- A step that writes to cells succeeds, and the bus shows what it wrote. -/
theorem step_cells {e : Encoding} (h : Bus.Shows bus regs.pc (e.bytes v))
    (hcell : ∀ s ∈ (e.outcome regs (Bus.peek bus) v).stores, Cell bus s.addr) :
    ∃ next, step ⟨regs, bus⟩ = .ok e ⟨(e.outcome regs (Bus.peek bus) v).regs, next⟩ ∧
      Bus.peek next = Outcome.stored (e.outcome regs (Bus.peek bus) v).stores (Bus.peek bus) ∧
      Cell next = Cell bus := by
  obtain ⟨mid, hreads, hstep⟩ := step_eq h
  have hsame := hreads.same
  rw [← hsame.cell_eq] at hcell
  obtain ⟨next, hcommit, hpeek, hcell'⟩ :=
    Outcome.commit_cells (e.outcome regs (Bus.peek bus) v).regs hcell
  rw [hcommit] at hstep
  rw [hsame.peek_eq] at hpeek
  exact ⟨next, hstep, hpeek, hcell'.trans hsame.cell_eq⟩

end M6502
