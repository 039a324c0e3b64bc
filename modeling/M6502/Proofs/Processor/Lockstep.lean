import M6502.Processor.Step

/-!
# Processors in lockstep

Where two buses answer every request alike, a processor cannot tell them
apart. Instructions are made of a few steps that each keep two machines
together, so whole instructions do as well, and so do runs of them, through
any traps on the way.
-/

set_option autoImplicit false

namespace M6502

structure Bus.Lockstep {β γ : Type} [Bus β] [Bus γ] (R : β → γ → Prop) : Prop where
  read {b : β} {c : γ} (h : R b c) (addr : UInt16) :
    (Bus.read addr b).1 = (Bus.read addr c).1 ∧ R (Bus.read addr b).2 (Bus.read addr c).2
  write {b : β} {c : γ} (h : R b c) (addr : UInt16) (value : UInt8) :
    (Bus.write addr value b).1 = (Bus.write addr value c).1 ∧
      R (Bus.write addr value b).2 (Bus.write addr value c).2

theorem Bus.Lockstep.readWord {β γ : Type} [Bus β] [Bus γ] {R : β → γ → Prop} (h : Bus.Lockstep R)
    {b : β} {c : γ} (hR : R b c) (addr : UInt16) :
    (Bus.readWord addr b).1 = (Bus.readWord addr c).1 ∧
      R (Bus.readWord addr b).2 (Bus.readWord addr c).2 := by
  obtain ⟨hlow, hnext⟩ := h.read hR addr
  obtain ⟨hhigh, hlast⟩ := h.read hnext (addr + 1)
  refine ⟨?_, hlast⟩
  show word (Bus.read addr b).1 (Bus.read (addr + 1) (Bus.read addr b).2).1 =
    word (Bus.read addr c).1 (Bus.read (addr + 1) (Bus.read addr c).2).1
  rw [hlow, hhigh]

structure Bus.Keeps {β : Type} [Bus β] (P : β → Prop) : Prop where
  read {b : β} (h : P b) (addr : UInt16) : P (Bus.read addr b).2
  write {b : β} (h : P b) (addr : UInt16) (value : UInt8) : P (Bus.write addr value b).2

/-- A bus is in lockstep with itself, and stays as accesses keep it. -/
theorem Bus.Keeps.lockstep {β : Type} [Bus β] {P : β → Prop} (h : Bus.Keeps P) :
    Bus.Lockstep fun b c : β => b = c ∧ P b where
  read := by
    rintro b _ ⟨rfl, hb⟩ addr
    exact ⟨rfl, rfl, h.read hb addr⟩
  write := by
    rintro b _ ⟨rfl, hb⟩ addr value
    exact ⟨rfl, rfl, h.write hb addr value⟩

namespace Exec

variable {β γ α δ : Type} {R : β → γ → Prop}

inductive Together (R : β → γ → Prop) :
    EStateM.Result Trap (Machine β) α → EStateM.Result Trap (Machine γ) α → Prop
  | ok (v : α) (regs : Registers) {b : β} {c : γ} (h : R b c) :
    Together R (.ok v ⟨regs, b⟩) (.ok v ⟨regs, c⟩)
  | error (t : Trap) (regs : Registers) {b : β} {c : γ} (h : R b c) :
    Together R (.error t ⟨regs, b⟩) (.error t ⟨regs, c⟩)

def Alike (R : β → γ → Prop) (x : Exec β α) (y : Exec γ α) : Prop :=
  ∀ regs b c, R b c → Together R (x ⟨regs, b⟩) (y ⟨regs, c⟩)

namespace Alike

theorem pure (v : α) : Alike R (Pure.pure v) (Pure.pure v) :=
  fun regs _ _ h => .ok v regs h

theorem throw (t : Trap) : Alike R (throw t : Exec β α) (throw t) :=
  fun regs _ _ h => .error t regs h

theorem bind {x : Exec β α} {y : Exec γ α} {f : α → Exec β δ} {g : α → Exec γ δ}
    (h : Alike R x y) (hf : ∀ v, Alike R (f v) (g v)) : Alike R (x >>= f) (y >>= g) := by
  intro regs b c hR
  have hx := h regs b c hR
  show Together R (EStateM.bind x f _) (EStateM.bind y g _)
  rw [EStateM.bind, EStateM.bind]
  generalize x ⟨regs, b⟩ = r at hx ⊢
  generalize y ⟨regs, c⟩ = s at hx ⊢
  cases hx with
  | ok v next hnext => exact hf v next _ _ hnext
  | error t next hnext => exact .error t next hnext

theorem registers : Alike R Exec.registers Exec.registers :=
  fun regs _ _ h => .ok regs regs h

theorem update (f : Registers → Registers) : Alike R (Exec.update f) (Exec.update f) :=
  fun regs _ _ h => .ok () (f regs) h

end Alike

variable [Bus β] [Bus γ]

section Steps

variable (h : Bus.Lockstep R)

include h

theorem alike_read (addr : UInt16) : Alike R (read addr) (read addr) := by
  intro regs b c hR
  obtain ⟨hanswer, hnext⟩ := h.read hR addr
  show Together R (.ok (Bus.read addr b).1 ⟨regs, (Bus.read addr b).2⟩)
    (.ok (Bus.read addr c).1 ⟨regs, (Bus.read addr c).2⟩)
  rw [hanswer]
  exact .ok _ regs hnext

theorem alike_write (addr : UInt16) (value : UInt8) :
    Alike R (write addr value) (write addr value) := by
  intro regs b c hR
  obtain ⟨hanswer, hnext⟩ := h.write hR addr value
  rw [write, write]
  generalize Bus.write addr value b = r at hanswer hnext ⊢
  generalize Bus.write addr value c = s at hanswer hnext ⊢
  obtain ⟨answer, b⟩ := r
  obtain ⟨_, c⟩ := s
  cases hanswer
  cases answer with
  | ok _ => exact .ok () regs hnext
  | error cause => exact .error (.bus addr cause) regs hnext

theorem alike_readPair (lo hi : UInt16) : Alike R (readPair lo hi) (readPair lo hi) :=
  (alike_read h lo).bind fun _ => (alike_read h hi).bind fun _ => .pure _

theorem alike_fetch : Alike R fetch fetch :=
  Alike.registers.bind fun regs => (alike_read h regs.pc).bind fun v =>
    (Alike.update _).bind fun _ => .pure v

theorem alike_fetchWord : Alike R fetchWord fetchWord :=
  (alike_fetch h).bind fun _ => (alike_fetch h).bind fun _ => .pure _

theorem alike_push (v : UInt8) : Alike R (push v) (push v) :=
  Alike.registers.bind fun _ => (alike_write h _ v).bind fun _ => .update _

theorem alike_pull : Alike R pull pull :=
  (Alike.update _).bind fun _ => Alike.registers.bind fun _ => alike_read h _

theorem alike_pullAddress : Alike R Action.pullAddress Action.pullAddress :=
  (alike_pull h).bind fun _ => (Alike.update _).bind fun _ => (alike_pull h).bind fun _ =>
    (Alike.update _).bind fun _ => Alike.registers.bind fun _ => .pure _

theorem alike_target (mode : AddressingMode) : Alike R (target mode) (target mode) := by
  cases mode with
  | implied | relative => exact Alike.registers.bind fun _ => .pure _
  | immediate =>
    exact Alike.registers.bind fun _ => (Alike.update _).bind fun _ => .pure _
  | zeroPage => exact (alike_fetch h).bind fun _ => .pure _
  | zeroPageX | zeroPageY =>
    exact (alike_fetch h).bind fun _ => Alike.registers.bind fun _ => .pure _
  | absolute => exact alike_fetchWord h
  | absoluteX | absoluteY =>
    exact (alike_fetchWord h).bind fun _ => Alike.registers.bind fun _ => .pure _
  | indirect => exact (alike_fetchWord h).bind fun _ => alike_readPair h _ _
  | indirectX =>
    exact (alike_fetch h).bind fun _ => Alike.registers.bind fun _ => alike_readPair h _ _
  | indirectY =>
    exact (alike_fetch h).bind fun _ => (alike_readPair h _ _).bind fun _ =>
      Alike.registers.bind fun _ => .pure _

theorem alike_address (mode : AddressingMode) : Alike R (address mode) (address mode) :=
  (alike_target h mode).bind fun _ => (Alike.update _).bind fun _ => .pure _

theorem alike_operand (mode : AddressingMode) : Alike R (operand mode) (operand mode) :=
  (alike_address h mode).bind fun _ => alike_read h _

theorem alike_run (action : Action) (mode : AddressingMode) :
    Alike R (action.run mode) (action.run mode) := by
  cases action with
  | load | combine | add | subtract | compare | testBits =>
    exact (alike_operand h mode).bind fun _ => .update _
  | store =>
    exact (alike_address h mode).bind fun _ => Alike.registers.bind fun _ => alike_write h _ _
  | transfer | setStack | count | setFlag | halt => exact .update _
  | modify f =>
    by_cases hi : mode = .implied
    · rw [hi]
      exact .update _
    · rw [Action.run, Action.run, if_neg hi, if_neg hi]
      exact (alike_address h mode).bind fun addr => (alike_read h addr).bind fun _ =>
        Alike.registers.bind fun _ => (Alike.update _).bind fun _ => alike_write h addr _
  | branch f on =>
    exact (alike_fetch h).bind fun _ => (Alike.update _).bind fun _ => .update _
  | jump => exact (alike_address h mode).bind fun _ => .update _
  | call =>
    exact (alike_address h mode).bind fun _ => Alike.registers.bind fun _ =>
      (alike_push h _).bind fun _ => (alike_push h _).bind fun _ => .update _
  | returnFromCall => exact (alike_pullAddress h).bind fun _ => .update _
  | returnFromInterrupt =>
    exact (alike_pull h).bind fun _ => (Alike.update _).bind fun _ =>
      (alike_pullAddress h).bind fun _ => .update _
  | pushAccumulator | pushStatus => exact Alike.registers.bind fun _ => alike_push h _
  | pullAccumulator | pullStatus => exact (alike_pull h).bind fun _ => .update _
  | idle => exact .pure ()

theorem alike_step : Alike R step step := by
  refine Alike.registers.bind fun regs => (alike_read h regs.pc).bind fun opcode => ?_
  cases Encoding.ofOpcode? opcode with
  | none => exact .throw _
  | some e =>
    exact (Alike.update _).bind fun _ =>
      (alike_run h e.mnemonic.action e.mode).bind fun _ => .pure e

theorem alike_enterInterrupt (vector : UInt16) :
    Alike R (enterInterrupt vector) (enterInterrupt vector) :=
  Alike.registers.bind fun _ => (alike_push h _).bind fun _ => (alike_push h _).bind fun _ =>
    (alike_push h _).bind fun _ => .update _

end Steps

end Exec

namespace Machine

variable {β : Type} [Bus β]

def advance (m : Machine β) : Except Trap Encoding × Machine β :=
  match step m with
  | .ok e next => (.ok e, next)
  | .error t next => (.error t, next)

def after : Nat → Machine β → Machine β
  | 0, m => m
  | n + 1, m => after n m.advance.2

def answer (n : Nat) (m : Machine β) : Except Trap Encoding :=
  (m.after n).advance.1

end Machine

section Runs

variable {β γ : Type} [Bus β] [Bus γ] {R : β → γ → Prop} {m : Machine β} {k : Machine γ}

theorem advance_together (h : Bus.Lockstep R) (hregs : m.regs = k.regs) (hbus : R m.bus k.bus) :
    m.advance.1 = k.advance.1 ∧ m.advance.2.regs = k.advance.2.regs ∧
      R m.advance.2.bus k.advance.2.bus := by
  obtain ⟨regs, b⟩ := m
  obtain ⟨_, c⟩ := k
  cases hregs
  have hstep := Exec.alike_step h regs b c hbus
  rw [Machine.advance, Machine.advance]
  generalize step ⟨regs, b⟩ = r at hstep ⊢
  generalize step ⟨regs, c⟩ = s at hstep ⊢
  cases hstep with
  | ok v next hnext => exact ⟨rfl, rfl, hnext⟩
  | error t next hnext => exact ⟨rfl, rfl, hnext⟩

theorem after_together (h : Bus.Lockstep R) (n : Nat) (hregs : m.regs = k.regs)
    (hbus : R m.bus k.bus) :
    (m.after n).regs = (k.after n).regs ∧ R (m.after n).bus (k.after n).bus := by
  induction n generalizing m k with
  | zero => exact ⟨hregs, hbus⟩
  | succ n ih =>
    obtain ⟨-, hregs, hbus⟩ := advance_together h hregs hbus
    exact ih hregs hbus

end Runs

end M6502
