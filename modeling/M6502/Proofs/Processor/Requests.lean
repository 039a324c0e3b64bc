import M6502.Proofs.Bus.Wiring

/-!
# What a machine asks of its bus

To a bus, a step of the processor is a list of requests. They are found out
by a step on a bus that keeps what it is asked, and the bus of the machine is
left as if it had been asked directly. So a machine that takes steps and is
asked things in between comes down to one list of requests.
-/

set_option autoImplicit false

namespace M6502

namespace MappedBus

def serve (bus : MappedBus) : List Request → MappedBus
  | [] => bus
  | r :: requests => (bus.request r).2.serve requests

theorem serve_append (bus : MappedBus) (front back : List Request) :
    bus.serve (front ++ back) = (bus.serve front).serve back := by
  induction front generalizing bus with
  | nil => rfl
  | cons r front ih => exact ih _

end MappedBus

structure Overheard where
  inner : MappedBus
  requests : List MappedBus.Request

namespace Overheard

def ask (bus : Overheard) (r : MappedBus.Request) : Overheard :=
  ⟨(bus.inner.request r).2, bus.requests ++ [r]⟩

instance : Bus Overheard where
  read addr bus := ((Bus.read addr bus.inner).1, bus.ask (.read addr))
  write addr value bus := ((Bus.write addr value bus.inner).1, bus.ask (.write addr value))

def Since (start bus : MappedBus) (overheard : Overheard) : Prop :=
  overheard.inner = bus ∧ start.serve overheard.requests = bus

theorem Since.ask {start bus : MappedBus} {overheard : Overheard} (h : Since start bus overheard)
    (r : MappedBus.Request) : Since start (bus.request r).2 (overheard.ask r) := by
  obtain ⟨rfl, hserve⟩ := h
  refine ⟨rfl, ?_⟩
  rw [Overheard.ask, MappedBus.serve_append, hserve]
  rfl

theorem lockstep (start : MappedBus) : Bus.Lockstep (Since start) where
  read h addr := ⟨congrArg (fun b => (Bus.read addr b).1) h.1.symm, h.ask (.read addr)⟩
  write h addr value :=
    ⟨congrArg (fun b => (Bus.write addr value b).1) h.1.symm, h.ask (.write addr value)⟩

end Overheard

namespace Machine

inductive Turn where
  | step
  | ask (r : MappedBus.Request)
  deriving DecidableEq, Repr

inductive Answer where
  | executed (answer : Except Trap Encoding)
  | replied (reply : MappedBus.Reply)

def take (m : Machine MappedBus) : Turn → Answer × Machine MappedBus
  | .step => m.advance.map .executed id
  | .ask r => (.replied (m.bus.request r).1, { m with bus := (m.bus.request r).2 })

def follow (m : Machine MappedBus) : List Turn → Machine MappedBus
  | [] => m
  | t :: turns => (m.take t).2.follow turns

def answers (m : Machine MappedBus) : List Turn → List Answer
  | [] => []
  | t :: turns => (m.take t).1 :: (m.take t).2.answers turns

def asks (m : Machine MappedBus) : Turn → List MappedBus.Request
  | .step => (advance (⟨m.regs, ⟨m.bus, []⟩⟩ : Machine Overheard)).2.bus.requests
  | .ask r => [r]

def asked (m : Machine MappedBus) : List Turn → List MappedBus.Request
  | [] => []
  | t :: turns => m.asks t ++ (m.take t).2.asked turns

theorem serve_asks (m : Machine MappedBus) (t : Turn) :
    m.bus.serve (m.asks t) = (m.take t).2.bus := by
  cases t with
  | step =>
    have hsince : Overheard.Since m.bus m.bus ⟨m.bus, []⟩ := ⟨rfl, rfl⟩
    exact (advance_together (Overheard.lockstep m.bus) rfl hsince).2.2.2
  | ask r => rfl

theorem serve_asked (m : Machine MappedBus) (turns : List Turn) :
    m.bus.serve (m.asked turns) = (m.follow turns).bus := by
  induction turns generalizing m with
  | nil => rfl
  | cons t turns ih =>
    rw [asked, MappedBus.serve_append, serve_asks]
    exact ih _

section Alike

variable {f : Device → Device} (hf : MappedBus.Imperceptible f) {m k : Machine MappedBus}

include hf

theorem take_alike (hregs : m.regs = k.regs) (hbus : MappedBus.SameUpTo f m.bus k.bus) (t : Turn) :
    (m.take t).1 = (k.take t).1 ∧ (m.take t).2.regs = (k.take t).2.regs ∧
      MappedBus.SameUpTo f (m.take t).2.bus (k.take t).2.bus := by
  cases t with
  | step =>
    obtain ⟨hanswer, hnext⟩ := advance_together (MappedBus.SameUpTo.lockstep hf) hregs hbus
    exact ⟨congrArg Answer.executed hanswer, hnext⟩
  | ask r =>
    obtain ⟨hreply, hnext⟩ := hbus.request hf r
    exact ⟨congrArg Answer.replied hreply, hregs, hnext⟩

theorem follow_alike (hregs : m.regs = k.regs) (hbus : MappedBus.SameUpTo f m.bus k.bus)
    (turns : List Turn) :
    m.answers turns = k.answers turns ∧ (m.follow turns).regs = (k.follow turns).regs ∧
      MappedBus.SameUpTo f (m.follow turns).bus (k.follow turns).bus := by
  induction turns generalizing m k with
  | nil => exact ⟨rfl, hregs, hbus⟩
  | cons t turns ih =>
    obtain ⟨hanswer, hregs, hbus⟩ := take_alike hf hregs hbus t
    obtain ⟨hanswers, hlast⟩ := ih hregs hbus
    exact ⟨congrArg₂ List.cons hanswer hanswers, hlast⟩

end Alike

end Machine

end M6502
