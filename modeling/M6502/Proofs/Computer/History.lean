import M6502.Proofs.Bus.Wiring
import M6502.Proofs.Computer.Running

/-!
# Histories

What happens to a computer from outside once it is wired: steps, runs and
interrupts, resets, requests to its bus and changes of its registers. An
event comes down to a few moves, so what each of the moves keeps is kept by
every history, and computers that no move tells apart reply alike for ever.
-/

set_option autoImplicit false

namespace M6502.Computer

inductive Event where
  | step
  | run
  | interrupt
  | reset
  | access (r : MappedBus.Request)
  | setRegisters (regs : Registers)
  deriving DecidableEq, Repr

inductive Reply where
  | executed (answer : Except Trap Encoding)
  | stopped (answer : Except Trap StopReason)
  | accessed (reply : MappedBus.Reply)
  | done

def perform (c : Computer) : Event → Reply × Computer
  | .step => c.step.map .executed id
  | .run => c.run.map .stopped id
  | .interrupt => c.interrupt.map .stopped id
  | .reset => (.done, c.reset)
  | .access r => (.accessed (c.bus.request r).1, { c with bus := (c.bus.request r).2 })
  | .setRegisters regs => (.done, { c with regs := regs })

def follow (c : Computer) : List Event → Computer
  | [] => c
  | e :: events => (c.perform e).2.follow events

def replies (c : Computer) : List Event → List Reply
  | [] => []
  | e :: events => (c.perform e).1 :: (c.perform e).2.replies events

inductive Executes : Event → Computer → Computer → Prop
  | step (c : Computer) : Executes .step c c
  | run {c : Computer} {n : Nat} (hn : n < c.settings.limit) (h : c.Undisturbed n) :
    Executes .run c (c.after n)
  | interrupt {c entered : Computer} {n : Nat}
    (henter : c.act (enterInterrupt c.vectors.nmi) = (.ok (), entered))
    (hn : n < entered.settings.limit) (h : entered.Undisturbed n) :
    Executes .interrupt c (entered.after n)

structure Bisimulation (T : Computer → Computer → Prop) : Prop where
  regs_eq {c d : Computer} (h : T c d) : c.regs = d.regs
  settings_eq {c d : Computer} (h : T c d) : c.settings = d.settings
  step {c d : Computer} (h : T c d) : c.step.1 = d.step.1 ∧ T c.step.2 d.step.2
  enter {c d : Computer} (h : T c d) :
    (c.act (enterInterrupt c.vectors.nmi)).1 = (d.act (enterInterrupt d.vectors.nmi)).1 ∧
      T (c.act (enterInterrupt c.vectors.nmi)).2 (d.act (enterInterrupt d.vectors.nmi)).2
  reset {c d : Computer} (h : T c d) : T c.reset d.reset
  access {c d : Computer} (h : T c d) (r : MappedBus.Request) :
    (c.bus.request r).1 = (d.bus.request r).1 ∧
      T { c with bus := (c.bus.request r).2 } { d with bus := (d.bus.request r).2 }
  setRegisters {c d : Computer} (h : T c d) (regs : Registers) :
    T { c with regs := regs } { d with regs := regs }

namespace Bisimulation

variable {T : Computer → Computer → Prop} {c d : Computer}

theorem halt (hT : Bisimulation T) (h : T c d) : T c.halt d.halt := by
  have hhalt := hT.setRegisters h { c.regs with halted := true }
  rw [Computer.halt, Computer.halt, ← hT.regs_eq h]
  exact hhalt

theorem runFor (hT : Bisimulation T) (n : Nat) (h : T c d) :
    (c.runFor n).1 = (d.runFor n).1 ∧ T (c.runFor n).2 (d.runFor n).2 := by
  induction n generalizing c d with
  | zero => exact ⟨rfl, hT.halt h⟩
  | succ n ih =>
    obtain ⟨hanswer, hnext⟩ := hT.step h
    rw [Computer.runFor, Computer.runFor]
    generalize c.step = r at hanswer hnext ⊢
    generalize d.step = s at hanswer hnext ⊢
    obtain ⟨answer, c⟩ := r
    obtain ⟨_, d⟩ := s
    cases hanswer
    cases answer with
    | error t => exact ⟨rfl, hnext⟩
    | ok e =>
      have hregs : c.regs = d.regs := hT.regs_eq hnext
      simp only [hregs]
      split
      · exact ⟨rfl, hnext⟩
      · exact ih hnext

theorem run (hT : Bisimulation T) (h : T c d) : c.run.1 = d.run.1 ∧ T c.run.2 d.run.2 := by
  rw [Computer.run, Computer.run, hT.settings_eq h]
  exact hT.runFor _ h

theorem interrupt (hT : Bisimulation T) (h : T c d) :
    c.interrupt.1 = d.interrupt.1 ∧ T c.interrupt.2 d.interrupt.2 := by
  obtain ⟨hanswer, hnext⟩ := hT.enter h
  rw [Computer.interrupt, Computer.interrupt]
  generalize c.act (enterInterrupt c.vectors.nmi) = r at hanswer hnext ⊢
  generalize d.act (enterInterrupt d.vectors.nmi) = s at hanswer hnext ⊢
  obtain ⟨answer, c⟩ := r
  obtain ⟨_, d⟩ := s
  cases hanswer
  cases answer with
  | error t => exact ⟨rfl, hnext⟩
  | ok _ => exact hT.run hnext

theorem perform (hT : Bisimulation T) (h : T c d) (e : Event) :
    (c.perform e).1 = (d.perform e).1 ∧ T (c.perform e).2 (d.perform e).2 := by
  cases e with
  | step =>
    obtain ⟨hanswer, hnext⟩ := hT.step h
    exact ⟨congrArg Reply.executed hanswer, hnext⟩
  | run =>
    obtain ⟨hanswer, hnext⟩ := hT.run h
    exact ⟨congrArg Reply.stopped hanswer, hnext⟩
  | interrupt =>
    obtain ⟨hanswer, hnext⟩ := hT.interrupt h
    exact ⟨congrArg Reply.stopped hanswer, hnext⟩
  | reset => exact ⟨rfl, hT.reset h⟩
  | access r =>
    obtain ⟨hanswer, hnext⟩ := hT.access h r
    exact ⟨congrArg Reply.accessed hanswer, hnext⟩
  | setRegisters regs => exact ⟨rfl, hT.setRegisters h regs⟩

theorem follow (hT : Bisimulation T) (events : List Event) (h : T c d) :
    c.replies events = d.replies events ∧ T (c.follow events) (d.follow events) := by
  induction events generalizing c d with
  | nil => exact ⟨rfl, h⟩
  | cons e events ih =>
    obtain ⟨hreply, hnext⟩ := hT.perform h e
    obtain ⟨hreplies, hlast⟩ := ih hnext
    exact ⟨congrArg₂ List.cons hreply hreplies, hlast⟩

end Bisimulation

structure Invariant (I : Computer → Prop) : Prop where
  step {c : Computer} (h : I c) : I c.step.2
  enter {c : Computer} (h : I c) : I (c.act (enterInterrupt c.vectors.nmi)).2
  reset {c : Computer} (h : I c) : I c.reset
  access {c : Computer} (h : I c) (r : MappedBus.Request) :
    I { c with bus := (c.bus.request r).2 }
  setRegisters {c : Computer} (h : I c) (regs : Registers) : I { c with regs := regs }

namespace Invariant

variable {I : Computer → Prop} {c : Computer}

/-- A computer is related to itself as long as it has the property. -/
theorem bisimulation (hI : Invariant I) : Bisimulation fun c d => c = d ∧ I c where
  regs_eq := by
    rintro c _ ⟨rfl, -⟩
    rfl
  settings_eq := by
    rintro c _ ⟨rfl, -⟩
    rfl
  step := by
    rintro c _ ⟨rfl, h⟩
    exact ⟨rfl, rfl, hI.step h⟩
  enter := by
    rintro c _ ⟨rfl, h⟩
    exact ⟨rfl, rfl, hI.enter h⟩
  reset := by
    rintro c _ ⟨rfl, h⟩
    exact ⟨rfl, hI.reset h⟩
  access := by
    rintro c _ ⟨rfl, h⟩ r
    exact ⟨rfl, rfl, hI.access h r⟩
  setRegisters := by
    rintro c _ ⟨rfl, h⟩ regs
    exact ⟨rfl, hI.setRegisters h regs⟩

theorem follow (hI : Invariant I) (events : List Event) (h : I c) : I (c.follow events) :=
  (hI.bisimulation.follow events ⟨rfl, h⟩).2.2

theorem after (hI : Invariant I) (n : Nat) (h : I c) : I (c.after n) := by
  induction n with
  | zero => exact h
  | succ n ih =>
    rw [after_succ]
    exact hI.step ih

theorem executes (hI : Invariant I) {e : Event} {site : Computer} (hs : Executes e c site)
    (h : I c) : I site := by
  cases hs with
  | step => exact h
  | run hn hrun => exact hI.after _ h
  | interrupt henter hn hrun =>
    have hentered := hI.enter h
    rw [henter] at hentered
    exact hI.after _ hentered

end Invariant

structure Beside (R : MappedBus → MappedBus → Prop) (c d : Computer) : Prop where
  regs_eq : c.regs = d.regs
  settings_eq : c.settings = d.settings
  vectors_eq : c.vectors = d.vectors
  cycles_eq : c.cycles = d.cycles
  heat_eq : c.heat = d.heat
  bus : R c.bus d.bus

section Beside

variable {R : MappedBus → MappedBus → Prop} {c d : Computer}

theorem Beside.act {α : Type} {x : Exec MappedBus α} (hx : Exec.Alike R x x) (h : Beside R c d) :
    (c.act x).1 = (d.act x).1 ∧ Beside R (c.act x).2 (d.act x).2 := by
  obtain ⟨⟨regs, b⟩, settings, vectors, cycles, heat⟩ := c
  obtain ⟨⟨_, b'⟩, _, _, _, _⟩ := d
  obtain ⟨rfl, rfl, rfl, rfl, rfl, hR⟩ := h
  have hout := hx regs b b' hR
  rw [Computer.act, Computer.act]
  generalize x ⟨regs, b⟩ = r at hout ⊢
  generalize x ⟨regs, b'⟩ = s at hout ⊢
  cases hout with
  | ok v next hnext => exact ⟨rfl, rfl, rfl, rfl, rfl, rfl, hnext⟩
  | error t next hnext => exact ⟨rfl, rfl, rfl, rfl, rfl, rfl, hnext⟩

theorem Beside.setRegisters (h : Beside R c d) (regs : Registers) :
    Beside R { c with regs := regs } { d with regs := regs } :=
  { h with regs_eq := rfl }

theorem Beside.halt (h : Beside R c d) : Beside R c.halt d.halt := by
  rw [Computer.halt, Computer.halt, h.regs_eq]
  exact h.setRegisters _

theorem Beside.tally (h : Beside R c d) (pc : UInt16) (e : Encoding) :
    Beside R (c.tally pc e) (d.tally pc e) where
  regs_eq := h.regs_eq
  settings_eq := h.settings_eq
  vectors_eq := h.vectors_eq
  cycles_eq := congrArg (· + 1) h.cycles_eq
  heat_eq := by rw [Computer.tally, Computer.tally, h.settings_eq, h.heat_eq]
  bus := h.bus

theorem reset_eq (c : Computer) :
    c.reset =
      { c with
        bus := (Bus.readWord irqVector (Bus.readWord resetVector
          (Bus.readWord nmiVector c.bus).2).2).2
        regs := .atReset (Bus.readWord resetVector (Bus.readWord nmiVector c.bus).2).1
        vectors := {
          nmi := (Bus.readWord nmiVector c.bus).1
          reset := (Bus.readWord resetVector (Bus.readWord nmiVector c.bus).2).1
          irq := (Bus.readWord irqVector (Bus.readWord resetVector
            (Bus.readWord nmiVector c.bus).2).2).1 }
        cycles := 0
        heat := ∅ } := by
  rw [reset]

variable (hR : Bus.Lockstep R)

include hR

theorem Beside.step (h : Beside R c d) : c.step.1 = d.step.1 ∧ Beside R c.step.2 d.step.2 := by
  have hlocated : Exec.Alike R locatedStep locatedStep :=
    Exec.Alike.registers.bind fun _ => (Exec.alike_step hR).bind fun _ => .pure _
  obtain ⟨hanswer, hnext⟩ := h.act hlocated
  rw [Computer.step, Computer.step]
  generalize c.act locatedStep = r at hanswer hnext ⊢
  generalize d.act locatedStep = s at hanswer hnext ⊢
  obtain ⟨answer, c⟩ := r
  obtain ⟨_, d⟩ := s
  cases hanswer
  cases answer with
  | ok v => exact ⟨rfl, hnext.tally v.1 v.2⟩
  | error t => exact ⟨rfl, hnext.halt⟩

theorem Beside.enter (h : Beside R c d) :
    (c.act (enterInterrupt c.vectors.nmi)).1 = (d.act (enterInterrupt d.vectors.nmi)).1 ∧
      Beside R (c.act (enterInterrupt c.vectors.nmi)).2
        (d.act (enterInterrupt d.vectors.nmi)).2 := by
  rw [h.vectors_eq]
  exact h.act (Exec.alike_enterInterrupt hR d.vectors.nmi)

theorem reset_beside (hsettings : c.settings = d.settings) (hbus : R c.bus d.bus) :
    Beside R c.reset d.reset := by
  obtain ⟨hnmi, hbus⟩ := hR.readWord hbus nmiVector
  obtain ⟨hstart, hbus⟩ := hR.readWord hbus resetVector
  obtain ⟨hirq, hbus⟩ := hR.readWord hbus irqVector
  rw [reset_eq, reset_eq, hnmi, hstart, hirq]
  constructor <;> dsimp only
  exacts [hsettings, hbus]

end Beside

theorem bisimulation_sameButLog : Bisimulation (Beside MappedBus.SameButLog) where
  regs_eq h := h.regs_eq
  settings_eq h := h.settings_eq
  step h := h.step MappedBus.SameButLog.lockstep
  enter h := h.enter MappedBus.SameButLog.lockstep
  reset h := reset_beside MappedBus.SameButLog.lockstep h.settings_eq h.bus
  access h r := by
    obtain ⟨hreply, hbus⟩ := h.bus.request r
    exact ⟨hreply, { h with bus := hbus }⟩
  setRegisters h regs := h.setRegisters regs

section Wiring

variable {P : MappedBus → Prop} {c : Computer}

theorem Beside.self (h : P c.bus) : Beside (fun b b' => b = b' ∧ P b) c c :=
  ⟨rfl, rfl, rfl, rfl, rfl, rfl, h⟩

theorem bus_step (hP : Bus.Keeps P) (h : P c.bus) : P c.step.2.bus :=
  ((Beside.self h).step hP.lockstep).2.bus.2

theorem bus_enter (hP : Bus.Keeps P) (h : P c.bus) :
    P (c.act (enterInterrupt c.vectors.nmi)).2.bus :=
  ((Beside.self h).enter hP.lockstep).2.bus.2

theorem bus_reset (hP : Bus.Keeps P) (h : P c.bus) : P c.reset.bus :=
  (reset_beside (c := c) (d := c) hP.lockstep rfl ⟨rfl, h⟩).bus.2

structure SameWiring (c d : Computer) : Prop where
  settings_eq : d.settings = c.settings
  bus : MappedBus.SameWiring c.bus d.bus

theorem SameWiring.refl (c : Computer) : SameWiring c c :=
  ⟨rfl, .refl c.bus⟩

theorem keeps_sameWiring (bus : MappedBus) : Bus.Keeps (MappedBus.SameWiring bus) where
  read h addr := h.read addr
  write h addr value := h.write addr value

theorem invariant_sameWiring (c : Computer) : Invariant (SameWiring c) where
  step h := ⟨(settings_step _).trans h.settings_eq, bus_step (keeps_sameWiring c.bus) h.bus⟩
  enter {d} h := by
    obtain ⟨m, hm⟩ := d.act_snd (enterInterrupt d.vectors.nmi)
    exact ⟨hm ▸ h.settings_eq, bus_enter (keeps_sameWiring c.bus) h.bus⟩
  reset h := ⟨h.settings_eq, bus_reset (keeps_sameWiring c.bus) h.bus⟩
  access h r := ⟨h.settings_eq, h.bus.request r⟩
  setRegisters h _ := ⟨h.settings_eq, h.bus⟩

end Wiring

end M6502.Computer
