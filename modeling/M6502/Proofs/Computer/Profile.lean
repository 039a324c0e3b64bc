import M6502.Proofs.Computer.History
import Mathlib.Algebra.BigOperators.Group.List.Lemmas
import Mathlib.Algebra.GroupWithZero.Nat
import Mathlib.Data.List.Dedup

/-!
# Profiles

A computer that counts has, for each address, how many instructions it has
executed there since its last reset and the first of them. That is a profile
of what was executed, whatever is done to the computer. Counting changes
nothing else: a computer that does not count replies alike and is left alike.
-/

set_option autoImplicit false

namespace M6502.Computer

inductive Operation where
  | event (e : Event)
  | load (image : Array UInt8) (offset : UInt16)
  | rewire (f : MappedBus → Except BusError MappedBus)

def Operation.restarts : Operation → Bool
  | .event .reset => true
  | .load _ _ => true
  | _ => false

def operate (c : Computer) : Operation → Reply × Computer
  | .event e => c.perform e
  | .load image offset => (.done, c.load image offset)
  | .rewire f =>
    match f c.bus with
    | .ok bus => (.accessed (.written (.ok ())), { c with bus := bus })
    | .error cause => (.accessed (.written (.error cause)), c)

def operated (c : Computer) : List Operation → Computer
  | [] => c
  | op :: ops => (c.operate op).2.operated ops

def answers (c : Computer) : List Operation → List Reply
  | [] => []
  | op :: ops => (c.operate op).1 :: (c.operate op).2.answers ops

structure Execution where
  pc : UInt16
  encoding : Encoding
  deriving DecidableEq

def stepped (c : Computer) : List Execution :=
  match c.step.1 with
  | .ok e => [⟨c.regs.pc, e⟩]
  | .error _ => []

def executed : Nat → Computer → List Execution
  | 0, _ => []
  | n + 1, c =>
    c.stepped ++
      match c.step with
      | (.error _, _) => []
      | (.ok _, d) => if d.regs.halted then [] else executed n d

def executedBy (c : Computer) : Operation → List Execution
  | .event .step => c.stepped
  | .event .run => executed c.settings.limit c
  | .event .interrupt =>
    match c.act (enterInterrupt c.vectors.nmi) with
    | (.ok _, entered) => executed entered.settings.limit entered
    | (.error _, _) => []
  | _ => []

def period (past : List Execution) (c : Computer) : List Operation → List Execution
  | [] => past
  | op :: ops =>
    period (if op.restarts then [] else past ++ c.executedBy op) (c.operate op).2 ops

/-- The counts are those of these executions: in the order of the addresses, for each address how
many instructions were executed there and the first of them. Together they are all the cycles. -/
structure Profiles (past : List Execution) (c : Computer) : Prop where
  ascending : (c.heatList.map Prod.fst).Pairwise (· < ·)
  entry (pc : UInt16) (h : Heat) : (pc, h) ∈ c.heatList ↔
    (past.find? (·.pc = pc)).map Execution.encoding = some h.encoding ∧
      h.count = (past.map Execution.pc).count pc ∧ 1 ≤ h.count
  total : (c.heatList.map fun p => p.2.count).sum = c.cycles
  cycles_eq : c.cycles = past.length

def tallied (past : List Execution) (pc : UInt16) : Option Heat :=
  (past.find? (·.pc = pc)).map fun x => ⟨(past.map Execution.pc).count pc, x.encoding⟩

theorem tallied_concat (past : List Execution) (x : Execution) (addr : UInt16) :
    tallied (past ++ [x]) addr =
      if x.pc = addr then
        some ((tallied past x.pc).elim ⟨1, x.encoding⟩ fun h => { h with count := h.count + 1 })
      else tallied past addr := by
  rw [tallied, List.find?_append, List.find?_singleton, List.map_append, List.count_append,
    List.map_singleton]
  by_cases hpc : x.pc = addr
  · subst hpc
    rw [if_pos rfl, List.count_singleton_self, tallied]
    cases hfind : past.find? (·.pc = x.pc) with
    | none =>
      have hnew : (past.map Execution.pc).count x.pc = 0 := by
        rw [List.count_eq_zero, List.mem_map]
        rintro ⟨y, hy, hpc⟩
        exact absurd (decide_eq_true hpc) (List.find?_eq_none.1 hfind y hy)
      simp [hnew]
    | some y => simp
  · rw [if_neg hpc, List.count_singleton, tallied]
    simp [hpc]

structure Counts (past : List Execution) (c : Computer) : Prop where
  counting : c.settings.count = true
  entry (pc : UInt16) : c.heat[pc]? = tallied past pc
  cycles_eq : c.cycles = past.length

namespace Counts

variable {past : List Execution} {c : Computer}

theorem start (bus : MappedBus) (limit : Option Nat) : Counts [] (withBus bus ⟨limit, true⟩) :=
  ⟨rfl, fun _ => Std.TreeMap.getElem?_emptyc, rfl⟩

theorem reset (h : Counts past c) : Counts [] c.reset := by
  rw [reset_eq]
  exact ⟨h.counting, fun _ => Std.TreeMap.getElem?_emptyc, rfl⟩

theorem act {α : Type} (h : Counts past c) (x : Exec MappedBus α) : Counts past (c.act x).2 := by
  obtain ⟨m, hm⟩ := c.act_snd x
  rw [hm]
  exact ⟨h.counting, h.entry, h.cycles_eq⟩

theorem step (h : Counts past c) : Counts (past ++ c.stepped) c.step.2 := by
  rw [stepped, step_eq]
  cases M6502.step c.toMachine with
  | ok e m =>
    refine ⟨h.counting, fun addr => ?_, ?_⟩
    · rw [tallied_concat, ← h.entry, ← h.entry, ← getElem?_warm]
      simp only [tally, h.counting, if_true]
    · rw [List.length_append, ← h.cycles_eq]
      rfl
  | error t m =>
    rw [List.append_nil]
    exact ⟨h.counting, h.entry, h.cycles_eq⟩

theorem runFor (n : Nat) (h : Counts past c) : Counts (past ++ executed n c) (c.runFor n).2 := by
  induction n generalizing past c with
  | zero =>
    rw [executed, List.append_nil]
    exact ⟨h.counting, h.entry, h.cycles_eq⟩
  | succ n ih =>
    have hstep := h.step
    rw [executed, Computer.runFor, ← List.append_assoc]
    cases hs : c.step with
    | mk answer d =>
      rw [hs] at hstep
      cases answer with
      | error t =>
        rw [List.append_nil]
        exact hstep
      | ok e =>
        dsimp only
        split
        · rw [List.append_nil]
          exact hstep
        · exact ih hstep

theorem interrupt (h : Counts past c) :
    Counts (past ++ c.executedBy (.event .interrupt)) c.interrupt.2 := by
  have henter := h.act (enterInterrupt c.vectors.nmi)
  rw [executedBy, Computer.interrupt]
  cases hs : c.act (enterInterrupt c.vectors.nmi) with
  | mk answer entered =>
    rw [hs] at henter
    cases answer with
    | error t =>
      rw [List.append_nil]
      exact henter
    | ok _ => exact henter.runFor _

theorem operate (h : Counts past c) (op : Operation) :
    Counts (if op.restarts then [] else past ++ c.executedBy op) (c.operate op).2 := by
  have hidle : Counts (past ++ []) c := by
    rw [List.append_nil]
    exact h
  cases op with
  | event e =>
    cases e with
    | step => exact h.step
    | run => exact h.runFor c.settings.limit
    | interrupt => exact h.interrupt
    | reset => exact h.reset
    | access r => exact ⟨hidle.counting, hidle.entry, hidle.cycles_eq⟩
    | setRegisters regs => exact ⟨hidle.counting, hidle.entry, hidle.cycles_eq⟩
  | load image offset =>
    have hmapped : Counts past { c with bus := c.bus.map (.rom image) offset } :=
      ⟨h.counting, h.entry, h.cycles_eq⟩
    exact hmapped.reset
  | rewire f =>
    show Counts (past ++ []) (c.operate (.rewire f)).2
    rw [Computer.operate]
    split
    · exact ⟨hidle.counting, hidle.entry, hidle.cycles_eq⟩
    · exact hidle

theorem operated (h : Counts past c) (ops : List Operation) :
    Counts (period past c ops) (c.operated ops) := by
  induction ops generalizing past c with
  | nil => exact h
  | cons op ops ih => exact ih (h.operate op)

theorem mem_heatList (h : Counts past c) (pc : UInt16) (heat : Heat) :
    (pc, heat) ∈ c.heatList ↔ tallied past pc = some heat := by
  rw [heatList, Std.TreeMap.mem_toList_iff_getElem?_eq_some, h.entry]

theorem ascending_heatList (c : Computer) : (c.heatList.map Prod.fst).Pairwise (· < ·) := by
  rw [List.pairwise_map]
  exact Std.TreeMap.ordered_keys_toList.imp Std.compare_eq_lt.1

/-- The addresses in the list are those where something was executed. -/
theorem perm_dedup (h : Counts past c) :
    (c.heatList.map Prod.fst).Perm (past.map Execution.pc).dedup := by
  have hnodup : (c.heatList.map Prod.fst).Nodup :=
    (ascending_heatList c).imp fun hlt => UInt16.ne_of_lt hlt
  rw [List.perm_ext_iff_of_nodup hnodup (List.nodup_dedup _)]
  intro pc
  rw [List.mem_dedup, List.mem_map, List.mem_map]
  constructor
  · rintro ⟨⟨_, heat⟩, hmem, rfl⟩
    obtain ⟨x, hfind, -⟩ := Option.map_eq_some_iff.1 ((h.mem_heatList _ _).1 hmem)
    have hpc := List.find?_some hfind
    exact ⟨x, List.mem_of_find?_eq_some hfind, of_decide_eq_true hpc⟩
  · rintro ⟨x, hx, rfl⟩
    obtain ⟨y, hy⟩ := Option.isSome_iff_exists.1
      (List.find?_isSome.2 ⟨x, hx, decide_eq_true rfl⟩ : (past.find? (·.pc = x.pc)).isSome)
    exact ⟨(x.pc, _), (h.mem_heatList _ _).2 (by rw [tallied, hy]; rfl), rfl⟩

theorem profiles (h : Counts past c) : Profiles past c where
  ascending := ascending_heatList c
  entry pc heat := by
    rw [h.mem_heatList, tallied]
    cases hfind : past.find? (·.pc = pc) with
    | none => exact iff_of_false nofun fun hentry => nomatch hentry.1
    | some x =>
      have hpc := List.find?_some hfind
      have hpos : 1 ≤ (past.map Execution.pc).count pc := List.count_pos_iff.2
        (List.mem_map.2 ⟨x, List.mem_of_find?_eq_some hfind, of_decide_eq_true hpc⟩)
      obtain ⟨count, encoding⟩ := heat
      simp only [Option.map_some, Option.some.injEq, Heat.mk.injEq]
      constructor
      · rintro ⟨rfl, rfl⟩
        exact ⟨rfl, rfl, hpos⟩
      · rintro ⟨rfl, rfl, -⟩
        exact ⟨rfl, rfl⟩
  total := by
    have hcounts : c.heatList.map (fun p => p.2.count) =
        (c.heatList.map Prod.fst).map fun pc => (past.map Execution.pc).count pc := by
      rw [List.map_map]
      refine List.map_congr_left fun p hp => ?_
      obtain ⟨x, -, hx⟩ := Option.map_eq_some_iff.1 ((h.mem_heatList p.1 p.2).1 hp)
      rw [← hx]
      rfl
    rw [hcounts, (h.perm_dedup.map _).sum_eq, List.sum_map_count_dedup_eq_length, List.length_map,
      h.cycles_eq]
  cycles_eq := h.cycles_eq

end Counts

def cold (c : Computer) : Computer :=
  { c with settings := { c.settings with count := false }, heat := ∅ }

theorem cold_act {α : Type} (c : Computer) (x : Exec MappedBus α) :
    c.cold.act x = (c.act x).map id cold := by
  obtain ⟨m, settings, vectors, cycles, heat⟩ := c
  simp only [cold, act]
  cases x m <;> rfl

theorem cold_step (c : Computer) : c.cold.step = c.step.map id cold := by
  rw [step_eq, step_eq, show c.cold.toMachine = c.toMachine from rfl]
  cases M6502.step c.toMachine <;> rfl

theorem cold_runFor (n : Nat) (c : Computer) : c.cold.runFor n = (c.runFor n).map id cold := by
  induction n generalizing c with
  | zero => rfl
  | succ n ih =>
    rw [runFor, runFor, cold_step]
    obtain ⟨answer, d⟩ := c.step
    cases answer with
    | error t => rfl
    | ok e =>
      have hhalted : d.cold.regs.halted = d.regs.halted := rfl
      simp only [Prod.map, id, hhalted]
      split
      · rfl
      · exact ih d

theorem cold_interrupt (c : Computer) : c.cold.interrupt = c.interrupt.map id cold := by
  rw [interrupt, interrupt, show c.cold.vectors = c.vectors from rfl, cold_act]
  obtain ⟨answer, entered⟩ := c.act (enterInterrupt c.vectors.nmi)
  cases answer with
  | error t => rfl
  | ok _ => exact cold_runFor _ entered

theorem cold_reset (c : Computer) : c.cold.reset = c.reset.cold := by
  rw [reset_eq, reset_eq]
  rfl

theorem cold_load (c : Computer) (image : Array UInt8) (offset : UInt16) :
    c.cold.load image offset = (c.load image offset).cold := by
  rw [load, load, ← cold_reset]
  rfl

theorem cold_operate (c : Computer) (op : Operation) :
    c.cold.operate op = (c.operate op).map id cold := by
  cases op with
  | event e =>
    cases e with
    | step =>
      show c.cold.step.map _ _ = (c.step.map _ _).map _ _
      rw [cold_step]
      rfl
    | run =>
      show c.cold.run.map _ _ = (c.run.map _ _).map _ _
      rw [run, cold_runFor]
      rfl
    | interrupt =>
      show c.cold.interrupt.map _ _ = (c.interrupt.map _ _).map _ _
      rw [cold_interrupt]
      rfl
    | reset => exact congrArg (Prod.mk Reply.done) (cold_reset c)
    | access r => rfl
    | setRegisters regs => rfl
  | load image offset => exact congrArg (Prod.mk Reply.done) (cold_load c image offset)
  | rewire f =>
    rw [operate, operate, show c.cold.bus = c.bus from rfl]
    cases f c.bus <;> rfl

/-- Counting makes no difference to anything else. -/
theorem cold_operated (c : Computer) (ops : List Operation) :
    c.cold.answers ops = c.answers ops ∧ c.cold.operated ops = (c.operated ops).cold := by
  induction ops generalizing c with
  | nil => exact ⟨rfl, rfl⟩
  | cons op ops ih =>
    obtain ⟨hanswers, hlast⟩ := ih (c.operate op).2
    rw [answers, answers, operated, operated, cold_operate]
    exact ⟨congrArg _ hanswers, hlast⟩

theorem settings_operated (c : Computer) (ops : List Operation) :
    (c.operated ops).settings = c.settings := by
  induction ops generalizing c with
  | nil => rfl
  | cons op ops ih =>
    have hfirst : (c.operate op).2.settings = c.settings := by
      cases op with
      | event e => exact ((invariant_sameWiring c).follow [e] (.refl c)).settings_eq
      | load image offset =>
        show (c.load image offset).settings = c.settings
        rw [load, reset_eq]
      | rewire f =>
        rw [operate]
        cases f c.bus <;> rfl
    exact (ih _).trans hfirst

/-- The counts are a profile of what was executed since the last reset, whatever was done to a
computer that counts. One that does not, and is the same otherwise, gives the same answers and is
left the same, with nothing counted. -/
theorem heat_profiles (bus : MappedBus) (limit : Option Nat) (ops : List Operation) :
    Profiles (period [] (withBus bus ⟨limit, true⟩) ops)
      ((withBus bus ⟨limit, true⟩).operated ops) ∧
    (withBus bus ⟨limit, false⟩).answers ops = (withBus bus ⟨limit, true⟩).answers ops ∧
    (withBus bus ⟨limit, false⟩).operated ops =
      { (withBus bus ⟨limit, true⟩).operated ops with settings := ⟨limit, false⟩, heat := ∅ } ∧
    ((withBus bus ⟨limit, false⟩).operated ops).heatList = [] := by
  have hcounts := (Counts.start bus limit).operated ops
  have hcold : (withBus bus ⟨limit, true⟩).cold = withBus bus ⟨limit, false⟩ := rfl
  have hsettings := settings_operated (withBus bus ⟨limit, true⟩) ops
  obtain ⟨hanswers, hlast⟩ := cold_operated (withBus bus ⟨limit, true⟩) ops
  rw [hcold, cold, hsettings] at hlast
  rw [hcold] at hanswers
  refine ⟨hcounts.profiles, hanswers, hlast, ?_⟩
  rw [hlast]
  rfl

end M6502.Computer
