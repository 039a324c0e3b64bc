import M6502.Proofs.Bus.Loading
import M6502.Proofs.Processor.Stepping

/-!
# Nested calls

Pushes and pulls, calls and returns are brackets around the steps between
them. What is inside leaves the stack pointer where it found it, and reaches
no further down the stack than the bytes it holds at once. So a pull finds
what its push left there, and a return finds the address behind its call,
as long as the stack is not wound around onto itself.
-/

set_option autoImplicit false

namespace M6502

theorem toNat_stackCell (s : UInt8) : (stackCell s).toNat = 0x0100 + s.toNat := by
  have hs := s.toNat_lt
  rw [stackCell, UInt16.toNat_add, UInt8.toNat_toUInt16]
  exact Nat.mod_eq_of_lt (by show 0x0100 + s.toNat < 0x10000; omega)

theorem stackCell_inj {s t : UInt8} : stackCell s = stackCell t ↔ s = t := by
  rw [← UInt16.toNat_inj, toNat_stackCell, toNat_stackCell, Nat.add_left_cancel_iff,
    UInt8.toNat_inj]

theorem stackCell_ne_of_le {a : UInt16} (h : 0x0200 ≤ a.toNat) (s : UInt8) : stackCell s ≠ a := by
  rintro rfl
  have hs := s.toNat_lt
  rw [toNat_stackCell] at h
  omega

def below (sp s : UInt8) : Nat :=
  (sp - s).toNat

theorem eq_of_below {sp s : UInt8} {i : Nat} (h : below sp s = i) : s = sp - UInt8.ofNat i := by
  rw [← h, below, UInt8.ofNat_toNat, UInt8.eq_sub_iff_add_eq, UInt8.add_comm, UInt8.sub_add_cancel]

theorem below_ofNat (sp : UInt8) {i : Nat} (hi : i < 256) : below sp (sp - UInt8.ofNat i) = i := by
  have hsp := sp.toNat_lt
  rw [below, UInt8.toNat_sub, UInt8.toNat_sub, UInt8.toNat_ofNat']
  omega

theorem below_sub {sp s : UInt8} {k : Nat} (h : k ≤ below sp s) :
    below (sp - UInt8.ofNat k) s = below sp s - k := by
  have hsp := sp.toNat_lt
  have hs := s.toNat_lt
  rw [below, UInt8.toNat_sub] at *
  rw [below, UInt8.toNat_sub, UInt8.toNat_sub, UInt8.toNat_ofNat']
  omega

theorem below_held (sp : UInt8) {j k : Nat} (hj : j < k) (hk : k ≤ 256) :
    below (sp - UInt8.ofNat k) (sp - UInt8.ofNat j) = 256 - (k - j) := by
  have hsp := sp.toNat_lt
  rw [below, UInt8.toNat_sub, UInt8.toNat_sub, UInt8.toNat_sub, UInt8.toNat_ofNat',
    UInt8.toNat_ofNat']
  omega

/-- A cell that the stack does not reach is none of those it writes to. -/
theorem stackCell_ne {sp s : UInt8} {j k : Nat} (h : k ≤ below sp s) (hj : j < k) (hk : k ≤ 256) :
    stackCell s ≠ stackCell (sp - UInt8.ofNat j) := by
  rw [Ne, stackCell_inj]
  rintro rfl
  rw [below_ofNat sp (by omega)] at h
  omega

theorem stackCell_ne_top {sp s : UInt8} {k : Nat} (h : k ≤ below sp s) (hpos : 0 < k)
    (hk : k ≤ 256) : stackCell s ≠ stackCell sp := by
  have htop : sp - UInt8.ofNat 0 = sp := UInt8.sub_zero sp
  rw [← htop]
  exact stackCell_ne h hpos hk

theorem stackCell_ne_next (sp : UInt8) : stackCell sp ≠ stackCell (sp - 1) := by
  rw [Ne, stackCell_inj]
  intro h
  have hnext : below sp (sp - 1) = 1 := below_ofNat sp (by decide)
  rw [← h, below, UInt8.sub_self] at hnext
  contradiction

theorem sub_one_sub_one (sp : UInt8) : sp - 1 - 1 = sp - UInt8.ofNat 2 := by
  rw [UInt8.eq_sub_iff_add_eq]
  show sp - 1 - 1 + (1 + 1) = sp
  rw [← UInt8.add_assoc, UInt8.sub_add_cancel, UInt8.sub_add_cancel]

inductive Saved where
  | accumulator | status
  deriving DecidableEq, Repr

namespace Saved

def push : Saved → Mnemonic
  | .accumulator => .pha
  | .status => .php

def pull : Saved → Mnemonic
  | .accumulator => .pla
  | .status => .plp

def byte (r : Registers) : Saved → UInt8
  | .accumulator => r.a
  | .status => r.status.pushed true

def Restored (v : UInt8) (r : Registers) : Saved → Prop
  | .accumulator => r.a = v
  | .status => r.status = .pulled v

end Saved

section Brackets

variable {β : Type} [Bus β] [Storage β] {m next : Machine β} {e : Encoding}

theorem push_step {c : Saved} (h : step m = .ok e next) (he : e.mnemonic = c.push)
    (hcells : ∀ a, Storage.Cell m.bus a) :
    next.regs.sp = m.regs.sp - 1 ∧
      Bus.peek next.bus =
        Function.update (Bus.peek m.bus) (stackCell m.regs.sp) (c.byte m.regs) ∧
      Storage.Cell next.bus = Storage.Cell m.bus := by
  obtain ⟨v, hregs, hpeek, hcell⟩ := outcome_of_step h hcells
  rw [Encoding.outcome, he] at hregs hpeek
  rw [hregs, hpeek]
  cases c <;> exact ⟨rfl, rfl, hcell⟩

theorem pull_step {c : Saved} (h : step m = .ok e next) (he : e.mnemonic = c.pull)
    (hcells : ∀ a, Storage.Cell m.bus a) :
    next.regs.sp = m.regs.sp + 1 ∧ Bus.peek next.bus = Bus.peek m.bus ∧
      Storage.Cell next.bus = Storage.Cell m.bus ∧
      c.Restored (Bus.peek m.bus (stackCell (m.regs.sp + 1))) next.regs := by
  obtain ⟨v, hregs, hpeek, hcell⟩ := outcome_of_step h hcells
  rw [Encoding.outcome, he] at hregs hpeek
  rw [hregs, hpeek]
  cases c <;> exact ⟨rfl, rfl, hcell, rfl⟩

theorem call_step (h : step m = .ok e next) (he : e.mnemonic = .jsr)
    (hcells : ∀ a, Storage.Cell m.bus a) :
    next.regs.sp = m.regs.sp - 1 - 1 ∧
      Bus.peek next.bus =
        Function.update
          (Function.update (Bus.peek m.bus) (stackCell m.regs.sp) (highByte (m.regs.pc + 2)))
          (stackCell (m.regs.sp - 1)) (lowByte (m.regs.pc + 2)) ∧
      Storage.Cell next.bus = Storage.Cell m.bus := by
  obtain ⟨v, hregs, hpeek, hcell⟩ := outcome_of_step h hcells
  rw [Encoding.outcome, he, Encoding.mode_of_call he] at hregs hpeek
  refine ⟨?_, ?_, hcell⟩
  · rw [hregs]
    rfl
  · rw [hpeek, ← back_of_call]
    rfl

theorem return_step (h : step m = .ok e next) (he : e.mnemonic = .rts)
    (hcells : ∀ a, Storage.Cell m.bus a) :
    next.regs.sp = m.regs.sp + 1 + 1 ∧ Bus.peek next.bus = Bus.peek m.bus ∧
      Storage.Cell next.bus = Storage.Cell m.bus ∧
      next.regs.pc = word (Bus.peek m.bus (stackCell (m.regs.sp + 1)))
        (Bus.peek m.bus (stackCell (m.regs.sp + 1 + 1))) + 1 := by
  obtain ⟨v, hregs, hpeek, hcell⟩ := outcome_of_step h hcells
  rw [Encoding.outcome, he] at hregs hpeek
  rw [hregs, hpeek]
  exact ⟨rfl, rfl, hcell, rfl⟩

/-- An instruction that writes to no cell of the stack leaves its page as it is. -/
theorem page_of_step (h : step m = .ok e next) (hcells : ∀ a, Storage.Cell m.bus a)
    (hstores : ∀ v, ∀ s ∈ (e.outcome m.regs (Bus.peek m.bus) v).stores,
      ∀ t, s.addr ≠ stackCell t) (t : UInt8) :
    Bus.peek next.bus (stackCell t) = Bus.peek m.bus (stackCell t) := by
  obtain ⟨v, -, hpeek, -⟩ := outcome_of_step h hcells
  rw [hpeek]
  exact Outcome.stored_of_ne (fun s hs => hstores v s hs t) _

end Brackets

inductive Balanced {β : Type} [Bus β] : Machine β → Machine β → Type
  | nothing (m : Machine β) : Balanced m m
  | plain {m next : Machine β} {e : Encoding} (h : step m = .ok e next)
      (hsp : next.regs.sp = m.regs.sp)
      (hpage : ∀ s, Bus.peek next.bus (stackCell s) = Bus.peek m.bus (stackCell s)) :
      Balanced m next
  | saved {m inner outer next : Machine β} {e d : Encoding} (out back : Saved)
      (hpush : step m = .ok e inner) (he : e.mnemonic = out.push) (body : Balanced inner outer)
      (hpull : step outer = .ok d next) (hd : d.mnemonic = back.pull) : Balanced m next
  | called {m inner outer next : Machine β} {e d : Encoding}
      (hcall : step m = .ok e inner) (he : e.mnemonic = .jsr) (body : Balanced inner outer)
      (hreturn : step outer = .ok d next) (hd : d.mnemonic = .rts) : Balanced m next
  | append {m mid last : Machine β} (front : Balanced m mid) (back : Balanced mid last) :
      Balanced m last

namespace Balanced

section Run

variable {β : Type} [Bus β]

def depth {m next : Machine β} : Balanced m next → Nat
  | .nothing _ => 0
  | .plain _ _ _ => 0
  | .saved _ _ _ _ body _ _ => 1 + body.depth
  | .called _ _ body _ _ => 2 + body.depth
  | .append front back => max front.depth back.depth

def Matched {m next : Machine β} : Balanced m next → Prop
  | .nothing _ => True
  | .plain _ _ _ => True
  | .saved out back _ _ body _ _ => back.Restored (out.byte m.regs) next.regs ∧ body.Matched
  | .called _ _ body _ _ => next.regs.pc = m.regs.pc + 3 ∧ body.Matched
  | .append front back => front.Matched ∧ back.Matched

end Run

end Balanced

section Frames

variable {β : Type} [Bus β] [Storage β] {m inner outer next : Machine β} {e : Encoding}
  {n k : Nat}

structure Keeps (n : Nat) (m next : Machine β) : Prop where
  sp_eq : next.regs.sp = m.regs.sp
  page_eq : ∀ s, n ≤ below m.regs.sp s →
    Bus.peek next.bus (stackCell s) = Bus.peek m.bus (stackCell s)
  cell_eq : Storage.Cell next.bus = Storage.Cell m.bus

structure Opens (k : Nat) (m inner : Machine β) : Prop where
  sp_eq : inner.regs.sp = m.regs.sp - UInt8.ofNat k
  page_eq : ∀ s, k ≤ below m.regs.sp s →
    Bus.peek inner.bus (stackCell s) = Bus.peek m.bus (stackCell s)
  cell_eq : Storage.Cell inner.bus = Storage.Cell m.bus

structure Closes (k : Nat) (outer next : Machine β) : Prop where
  sp_eq : next.regs.sp = outer.regs.sp + UInt8.ofNat k
  peek_eq : Bus.peek next.bus = Bus.peek outer.bus
  cell_eq : Storage.Cell next.bus = Storage.Cell outer.bus

theorem Keeps.mono (h : Keeps n m next) (hle : n ≤ k) : Keeps k m next :=
  ⟨h.sp_eq, fun s hs => h.page_eq s (Nat.le_trans hle hs), h.cell_eq⟩

theorem Keeps.trans {mid : Machine β} (h : Keeps n m mid) (h' : Keeps n mid next) :
    Keeps n m next where
  sp_eq := h'.sp_eq.trans h.sp_eq
  page_eq s hs := (h'.page_eq s (h.sp_eq ▸ hs)).trans (h.page_eq s hs)
  cell_eq := h'.cell_eq.trans h.cell_eq

theorem Keeps.within (hopen : Opens k m inner) (h : Keeps n inner outer)
    (hclose : Closes k outer next) : Keeps (k + n) m next where
  sp_eq := by rw [hclose.sp_eq, h.sp_eq, hopen.sp_eq, UInt8.sub_add_cancel]
  page_eq s hs := by
    have hbelow : n ≤ below inner.regs.sp s := by
      rw [hopen.sp_eq, below_sub (Nat.le_of_add_right_le hs)]
      omega
    rw [hclose.peek_eq, h.page_eq s hbelow, hopen.page_eq s (Nat.le_of_add_right_le hs)]
  cell_eq := (hclose.cell_eq.trans h.cell_eq).trans hopen.cell_eq

/-- The bytes of an open bracket are held as long as the stack does not reach them again. -/
theorem Keeps.held (h : Keeps n inner outer) (hopen : Opens k m inner) (hfit : k + n ≤ 256)
    {j : Nat} (hj : j < k) :
    Bus.peek outer.bus (stackCell (m.regs.sp - UInt8.ofNat j)) =
      Bus.peek inner.bus (stackCell (m.regs.sp - UInt8.ofNat j)) := by
  refine h.page_eq _ ?_
  rw [hopen.sp_eq, below_held m.regs.sp hj (by omega)]
  omega

theorem Keeps.held_top (h : Keeps n inner outer) (hopen : Opens k m inner) (hfit : k + n ≤ 256)
    (hpos : 0 < k) :
    Bus.peek outer.bus (stackCell m.regs.sp) = Bus.peek inner.bus (stackCell m.regs.sp) := by
  have htop : m.regs.sp - UInt8.ofNat 0 = m.regs.sp := UInt8.sub_zero m.regs.sp
  rw [← htop]
  exact h.held hopen hfit hpos

theorem push_opens {c : Saved} (h : step m = .ok e inner) (he : e.mnemonic = c.push)
    (hcells : ∀ a, Storage.Cell m.bus a) : Opens 1 m inner := by
  obtain ⟨hsp, hpeek, hcell⟩ := push_step h he hcells
  refine ⟨hsp, fun s hs => ?_, hcell⟩
  rw [hpeek, Function.update_of_ne (stackCell_ne_top hs Nat.zero_lt_one (by decide))]

theorem call_opens (h : step m = .ok e inner) (he : e.mnemonic = .jsr)
    (hcells : ∀ a, Storage.Cell m.bus a) : Opens 2 m inner := by
  obtain ⟨hsp, hpeek, hcell⟩ := call_step h he hcells
  refine ⟨?_, fun s hs => ?_, hcell⟩
  · rw [hsp, sub_one_sub_one]
  · have hlow : stackCell s ≠ stackCell (m.regs.sp - 1) := stackCell_ne hs (by decide) (by decide)
    rw [hpeek, Function.update_of_ne hlow,
      Function.update_of_ne (stackCell_ne_top hs (by decide) (by decide))]

theorem pull_closes {c : Saved} (h : step outer = .ok e next) (he : e.mnemonic = c.pull)
    (hcells : ∀ a, Storage.Cell outer.bus a) : Closes 1 outer next := by
  obtain ⟨hsp, hpeek, hcell, -⟩ := pull_step h he hcells
  exact ⟨hsp, hpeek, hcell⟩

theorem return_closes (h : step outer = .ok e next) (he : e.mnemonic = .rts)
    (hcells : ∀ a, Storage.Cell outer.bus a) : Closes 2 outer next := by
  obtain ⟨hsp, hpeek, hcell, -⟩ := return_step h he hcells
  refine ⟨?_, hpeek, hcell⟩
  rw [hsp, UInt8.add_assoc]
  rfl

end Frames

namespace Balanced

variable {β : Type} [Bus β] [Storage β] {m next : Machine β}

/-- Balanced steps reach no deeper into the stack than the bytes they hold. -/
theorem keeps (run : Balanced m next) (hcells : ∀ a, Storage.Cell m.bus a) :
    Keeps run.depth m next := by
  induction run with
  | nothing m => exact ⟨rfl, fun _ _ => rfl, rfl⟩
  | plain h hsp hpage =>
    obtain ⟨v, -, -, hcell⟩ := outcome_of_step h hcells
    exact ⟨hsp, fun s _ => hpage s, hcell⟩
  | saved out back hpush he body hpull hd ih =>
    have hopen := push_opens hpush he hcells
    have hbody := ih fun a => hopen.cell_eq ▸ hcells a
    exact hbody.within hopen
      (pull_closes hpull hd fun a => hbody.cell_eq ▸ hopen.cell_eq ▸ hcells a)
  | called hcall he body hreturn hd ih =>
    have hopen := call_opens hcall he hcells
    have hbody := ih fun a => hopen.cell_eq ▸ hcells a
    exact hbody.within hopen
      (return_closes hreturn hd fun a => hbody.cell_eq ▸ hopen.cell_eq ▸ hcells a)
  | append front back ih ih' =>
    have hfront := ih hcells
    have hback := ih' fun a => hfront.cell_eq ▸ hcells a
    exact (hfront.mono (Nat.le_max_left ..)).trans (hback.mono (Nat.le_max_right ..))

/-- As long as the stack is not wound around onto itself, all brackets match. -/
theorem matched (run : Balanced m next) (hcells : ∀ a, Storage.Cell m.bus a)
    (hdepth : run.depth ≤ 256) : run.Matched := by
  induction run with
  | nothing m => trivial
  | plain h hsp hpage => trivial
  | @saved m inner outer next e d out back hpush he body hpull hd ih =>
    have hopen := push_opens hpush he hcells
    have hinner (a : UInt16) : Storage.Cell inner.bus a := hopen.cell_eq ▸ hcells a
    have hbody := body.keeps hinner
    obtain ⟨hsp, hpeek, -⟩ := push_step hpush he hcells
    obtain ⟨-, -, -, hrestored⟩ := pull_step hpull hd fun a => hbody.cell_eq ▸ hinner a
    rw [hbody.sp_eq, hsp, UInt8.sub_add_cancel, hbody.held_top hopen hdepth Nat.zero_lt_one, hpeek,
      Function.update_self] at hrestored
    exact ⟨hrestored, ih hinner (Nat.le_trans (Nat.le_add_left ..) hdepth)⟩
  | @called m inner outer next e d hcall he body hreturn hd ih =>
    have hopen := call_opens hcall he hcells
    have hinner (a : UInt16) : Storage.Cell inner.bus a := hopen.cell_eq ▸ hcells a
    have hbody := body.keeps hinner
    obtain ⟨hsp, hpeek, -⟩ := call_step hcall he hcells
    obtain ⟨-, -, -, hpc⟩ := return_step hreturn hd fun a => hbody.cell_eq ▸ hinner a
    have hlow : Bus.peek outer.bus (stackCell (m.regs.sp - 1)) =
      Bus.peek inner.bus (stackCell (m.regs.sp - 1)) := hbody.held hopen hdepth Nat.one_lt_two
    rw [hbody.sp_eq, hsp, UInt8.sub_add_cancel, UInt8.sub_add_cancel, hlow,
      hbody.held_top hopen hdepth Nat.zero_lt_two, hpeek, Function.update_self,
      Function.update_of_ne (stackCell_ne_next m.regs.sp), Function.update_self,
      word_lowByte_highByte, UInt16.add_assoc] at hpc
    exact ⟨hpc, ih hinner (Nat.le_trans (Nat.le_add_left ..) hdepth)⟩
  | append front back ih ih' =>
    have hfront := front.keeps hcells
    obtain ⟨hle, hle'⟩ := Nat.max_le.1 hdepth
    exact ⟨ih hcells hle, ih' (fun a => hfront.cell_eq ▸ hcells a) hle'⟩

/-- On full memory balanced steps come back to the stack that they started from: the pointer is the
same, all but the cells that were held once are untouched, and all brackets match. -/
theorem well_bracketed {m next : Machine FlatMemory} (hfull : m.bus.Full) (run : Balanced m next)
    (hdepth : run.depth ≤ 256) :
    next.regs.sp = m.regs.sp ∧
      (∀ s, (∀ i < run.depth, s ≠ m.regs.sp - UInt8.ofNat i) →
        Bus.peek next.bus (stackCell s) = Bus.peek m.bus (stackCell s)) ∧
      run.Matched := by
  have hkeeps := run.keeps hfull.cell
  refine ⟨hkeeps.sp_eq, fun s hs => hkeeps.page_eq s ?_, run.matched hfull.cell hdepth⟩
  exact Nat.le_of_not_lt fun hlt => hs _ hlt (eq_of_below rfl)

def nestCode : List UInt8 :=
  [0x20, 0x03, 0x02, 0x48, 0xA9, 0x00, 0x68, 0x60]

def nestStart : Machine FlatMemory :=
  ⟨.atReset 0x0200, (FlatMemory.cleared 0x10000 0).load 0x0200 nestCode.toArray⟩

theorem full_nestStart : nestStart.bus.Full :=
  FlatMemory.full_cleared.load 0x0200 nestCode.toArray

theorem shows_nestStart : Bus.Shows nestStart.bus 0x0200 nestCode := by
  refine FlatMemory.shows_load (by decide) ?_ (by decide)
  rw [FlatMemory.cleared, Array.size_replicate]
  decide

theorem well_bracketed_call :
    ∃ next, ∃ run : Balanced nestStart next, run.depth = 3 ∧ next.regs.sp = 0 ∧
      Bus.peek next.bus (stackCell 0x80) = Bus.peek nestStart.bus (stackCell 0x80) ∧
      run.Matched := by
  have hbehind : ∀ i < 8, 0x0200 ≤ ((0x0200 : UInt16) + UInt16.ofNat i).toNat := by decide
  have hpage (s : UInt8) (i : Nat) (hi : i < 8) : stackCell s ≠ 0x0200 + UInt16.ofNat i :=
    stackCell_ne_of_le (hbehind i hi) s
  obtain ⟨m₁, s₁, r₁, c₁, k₁⟩ := step_in_code .jsr .absolute 0x0203 0 shows_nestStart
    full_nestStart.cell rfl
    (List.forall_mem_cons.2 ⟨hpage _, List.forall_mem_singleton.2 (hpage _)⟩)
  have p₁ : m₁.regs.pc = 0x0203 := by
    rw [r₁]
    rfl
  obtain ⟨m₂, s₂, r₂, c₂, k₂⟩ := step_in_code .pha .implied 0 3 c₁ k₁ p₁
    (List.forall_mem_singleton.2 (hpage _))
  have p₂ : m₂.regs.pc = 0x0204 := by
    rw [r₂]
    exact congrArg (· + 1) p₁
  obtain ⟨m₃, s₃, r₃, c₃, k₃⟩ := step_in_code .lda .immediate 0 4 c₂ k₂ p₂ (List.forall_mem_nil _)
  have p₃ : m₃.regs.pc = 0x0206 := by
    rw [r₃]
    exact congrArg (· + 1 + 1) p₂
  have hkept : m₃.regs.sp = m₂.regs.sp := by
    rw [r₃]
    rfl
  have hload := page_of_step s₃ k₂ fun v => by
    rw [Encoding.outcome, Encoding.mnemonic_of]
    exact List.forall_mem_nil _
  obtain ⟨m₄, s₄, r₄, c₄, k₄⟩ := step_in_code .pla .implied 0 6 c₃ k₃ p₃ (List.forall_mem_nil _)
  have p₄ : m₄.regs.pc = 0x0207 := by
    rw [r₄]
    exact congrArg (· + 1) p₃
  obtain ⟨m₅, s₅, -⟩ := step_in_code .rts .implied 0 7 c₄ k₄ p₄ (List.forall_mem_nil _)
  let run : Balanced nestStart m₅ := .called s₁ (Encoding.mnemonic_of _)
    (.saved .accumulator .accumulator s₂ (Encoding.mnemonic_of _) (.plain s₃ hkept hload) s₄
      (Encoding.mnemonic_of _)) s₅ (Encoding.mnemonic_of _)
  have hdepth : run.depth = 3 := rfl
  obtain ⟨hsp, hpeek, hmatched⟩ := run.well_bracketed full_nestStart (by rw [hdepth]; decide)
  have hfar : ∀ i < 3, (0x80 : UInt8) ≠ nestStart.regs.sp - UInt8.ofNat i := by decide
  exact ⟨m₅, run, hdepth, hsp, hpeek 0x80 hfar, hmatched⟩

end Balanced

end M6502
