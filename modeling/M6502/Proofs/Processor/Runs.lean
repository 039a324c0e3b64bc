import M6502.Proofs.Processor.Agreement

/-!
# Runs of code that keeps to its cells

Code runs undisturbed as long as it writes to cells of its own that none of
its instructions lies in. Then every step succeeds, the bytes of the code
stay, and so does every byte that is not in one of the cells.
-/

set_option autoImplicit false

namespace M6502

theorem sub_eq_zero_iff {a b : UInt8} : a - b = 0 ↔ a = b := by
  constructor
  · intro h
    have hadd := congrArg (· + b) h
    simpa using hadd
  · rintro rfl
    simp

inductive Runs {β : Type} [Bus β] : Nat → Machine β → Machine β → Prop
  | refl (m : Machine β) : Runs 0 m m
  | step {n : Nat} {e : Encoding} {m next last : Machine β} (h : step m = .ok e next)
      (hh : next.regs.halted = false) (rest : Runs n next last) : Runs (n + 1) m last

theorem Runs.trans {β : Type} [Bus β] {n k : Nat} {m mid last : Machine β} (h : Runs n m mid)
    (h' : Runs k mid last) : Runs (n + k) m last := by
  induction h with
  | refl m =>
    rw [Nat.zero_add]
    exact h'
  | step hstep hh _ ih =>
    rw [Nat.add_right_comm]
    exact .step hstep hh (ih h')

structure Reaches {β : Type} [Bus β] [Storage β] (n : Nat) (addr : UInt16) (m mid : Machine β) :
    Prop where
  runs : Runs n m mid
  pc_eq : mid.regs.pc = addr
  halts : ∃ last, step mid = .ok (.of .brk .implied) last ∧
    last.regs = { mid.regs.opened.setFlag .brk true with halted := true } ∧
    Storage.Same mid.bus last.bus

theorem Outcome.stored_of_ne {stores : List Store} {a : UInt16} (h : ∀ s ∈ stores, s.addr ≠ a)
    (peek : UInt16 → UInt8) : stored stores peek a = peek a := by
  induction stores generalizing peek with
  | nil => rfl
  | cons s stores ih =>
    rw [List.forall_mem_cons] at h
    rw [stored, ih h.2, Function.update_of_ne (Ne.symm h.1)]

theorem Mnemonic.action_eq_halt {m : Mnemonic} : m.action = .halt ↔ m = .brk := by
  cases m <;> decide

theorem Action.halted_outcome {action : Action} (ha : action ≠ .halt) (mode : AddressingMode)
    (regs : Registers) (peek : UInt16 → UInt8) (v : UInt16) :
    (action.outcome mode regs peek v).regs.halted = regs.halted := by
  cases action with
  | halt => contradiction
  | modify f => rw [outcome]; split <;> rfl
  | branch f on => rw [outcome]; split <;> rfl
  | load r => cases r <;> rfl
  | transfer src dst => cases dst <;> rfl
  | count r up => cases r <;> rfl
  | _ => rfl

def Action.changes (mode : AddressingMode) (r : Register) : Action → Bool
  | .load s | .transfer _ s | .count s _ => s == r
  | .modify _ => r == .a && mode == .implied
  | .combine _ | .add | .subtract => r == .a
  | .setStack | .call | .returnFromCall | .returnFromInterrupt | .pushAccumulator | .pushStatus
  | .pullStatus => r == .sp
  | .pullAccumulator => r == .a || r == .sp
  | .store _ | .compare _ | .testBits | .branch _ _ | .jump | .setFlag _ _ | .halt | .idle => false

theorem Action.get_outcome {action : Action} {mode : AddressingMode} {r : Register}
    (h : action.changes mode r = false) (regs : Registers) (peek : UInt16 → UInt8) (v : UInt16) :
    (action.outcome mode regs peek v).regs.get r = regs.get r := by
  obtain ⟨a, x, y, sp, pc, ad, sir, status, halted⟩ := regs
  cases action with
  | load s => cases s <;> cases r <;> first | contradiction | rfl
  | transfer t s => cases s <;> cases r <;> first | contradiction | rfl
  | count s up => cases s <;> cases r <;> first | contradiction | rfl
  | modify f =>
    by_cases hm : mode = .implied
    · rw [hm] at h ⊢
      cases r <;> first | contradiction | rfl
    · rw [outcome, if_neg hm]
      cases r <;> rfl
  | branch f on => rw [outcome]; split <;> cases r <;> rfl
  | _ => cases r <;> first | contradiction | rfl

structure Op where
  offset : Nat
  mnemonic : Mnemonic
  mode : AddressingMode
  word : UInt16

namespace Op

def addr (base : UInt16) (op : Op) : UInt16 :=
  base + UInt16.ofNat op.offset

def encoding? (op : Op) : Option Encoding :=
  Encoding.ofParts? op.mnemonic op.mode

theorem encoding?_of {k : Nat} {m : Mnemonic} {mode : AddressingMode} {v : UInt16}
    (h : (Encoding.ofParts? m mode).isSome = true := by decide) :
    encoding? ⟨k, m, mode, v⟩ = some (.of m mode h) :=
  (Option.some_get h).symm

end Op

structure Takes {β : Type} [Bus β] (op : Mnemonic) (mode : AddressingMode) (v : UInt16)
    (m next : Machine β) : Prop where
  runs : Runs 1 m next
  regs_eq : next.regs = (op.action.outcome mode m.regs.opened (Bus.peek m.bus) v).regs
  peek_eq : Bus.peek next.bus = Outcome.stored
    (op.action.outcome mode m.regs.opened (Bus.peek m.bus) v).stores (Bus.peek m.bus)

structure Workspace {β : Type} [Bus β] [Storage β] (base : UInt16) (code : List Op)
    (own : UInt16 → Prop) (before : UInt16 → UInt8) (bus : β) : Prop where
  shows : ∀ op ∈ code, ∀ e ∈ op.encoding?, Bus.Shows bus (op.addr base) (e.bytes op.word)
  apart : ∀ op ∈ code, ∀ e ∈ op.encoding?, ∀ i < e.size, ¬ own (op.addr base + UInt16.ofNat i)
  cells : ∀ a, own a → Storage.Cell bus a
  others : ∀ a, ¬ own a → Bus.peek bus a = before a

def Registers.frame (regs : Registers) : UInt8 × UInt8 × UInt8 :=
  (regs.x, regs.y, regs.sp)

section Steps

variable {β : Type} [Bus β] {m next : Machine β} {op : Mnemonic} {mode : AddressingMode}
  {base : UInt16} {k : Nat} {v : UInt16}

theorem Takes.pc_eq (h : Takes op mode v m next) (hs : op.action.suits mode = true)
    (ht : op.transfersControl = false) (hpc : m.regs.pc = base + UInt16.ofNat k) :
    next.regs.pc = base + UInt16.ofNat (k + mode.size) := by
  rw [h.regs_eq, Mnemonic.pc_sequential hs ht, hpc, UInt16.ofNat_add, UInt16.add_assoc]

theorem Takes.peek_quiet (h : Takes op mode v m next)
    (hquiet : (op.action.outcome mode m.regs.opened (Bus.peek m.bus) v).stores = []) :
    Bus.peek next.bus = Bus.peek m.bus := by
  rw [h.peek_eq, hquiet]
  rfl

theorem Takes.pc_branch {f : Flag} {on : Bool} {d : UInt8} {t : Nat}
    (h : Takes op mode d.toUInt16 m next) (ha : op.action = .branch f on)
    (hpc : m.regs.pc = base + UInt16.ofNat k)
    (ht : base + UInt16.ofNat (k + 2) + signExtend d = base + UInt16.ofNat t) :
    next.regs.pc = base + UInt16.ofNat (if m.regs.flag f = on then t else k + 2) := by
  have hbehind : m.regs.pc + 2 = base + UInt16.ofNat (k + 2) := by
    rw [hpc, UInt16.ofNat_add, UInt16.add_assoc]
    rfl
  rw [h.regs_eq, Mnemonic.regs_branch ha, lowByte_toUInt16, hbehind, ht]
  split <;> rfl

theorem Takes.status_branch {f : Flag} {on : Bool} (h : Takes op mode v m next)
    (ha : op.action = .branch f on) : next.regs.status = m.regs.status := by
  rw [h.regs_eq, Mnemonic.regs_branch ha]
  rfl

theorem Takes.get_eq {r : Register} (h : Takes op mode v m next)
    (hr : op.action.changes mode r = false) : next.regs.get r = m.regs.get r := by
  rw [h.regs_eq, Action.get_outcome hr]
  cases r <;> rfl

theorem Takes.frame_index {x : UInt8} (h : Takes op mode v m next) (hx : next.regs.x = x)
    (hy : op.action.changes mode .y = false) (hs : op.action.changes mode .sp = false) :
    next.regs.frame = (x, m.regs.frame.2) :=
  congrArg₂ Prod.mk hx (congrArg₂ Prod.mk (h.get_eq hy) (h.get_eq hs))

theorem Takes.frame_eq (h : Takes op mode v m next) (hx : op.action.changes mode .x = false)
    (hy : op.action.changes mode .y = false) (hs : op.action.changes mode .sp = false) :
    next.regs.frame = m.regs.frame :=
  h.frame_index (h.get_eq hx) hy hs

namespace Workspace

variable [Storage β] {code : List Op} {own : UInt16 → Prop} {before : UInt16 → UInt8}

theorem keep {bus next : β} (h : Workspace base code own before bus)
    (hpeek : ∀ a, ¬ own a → Bus.peek next a = Bus.peek bus a)
    (hcell : Storage.Cell next = Storage.Cell bus) : Workspace base code own before next where
  shows op hop e he := by
    refine (h.shows op hop e he).keep fun i hi => hpeek _ (h.apart op hop e he i ?_)
    rwa [Encoding.length_bytes] at hi
  apart := h.apart
  cells a ha := by
    rw [hcell]
    exact h.cells a ha
  others a ha := (hpeek a ha).trans (h.others a ha)

theorem shows_at (h : Workspace base code own before m.bus) {i : Nat}
    (hop : code[i]? = some ⟨k, op, mode, v⟩) (hpc : m.regs.pc = base + UInt16.ofNat k)
    (hd : (Encoding.ofParts? op mode).isSome = true) :
    Bus.Shows m.bus m.regs.pc ((Encoding.of op mode hd).bytes v) := by
  rw [hpc]
  exact h.shows _ (List.mem_of_getElem? hop) _ (Op.encoding?_of hd)

/-- Where an instruction writes only to the code's own cells, a step takes it. -/
theorem take (h : Workspace base code own before m.bus) (i : Nat)
    (hop : code[i]? = some ⟨k, op, mode, v⟩) (hpc : m.regs.pc = base + UInt16.ofNat k)
    (hbrk : op ≠ .brk)
    (hown : ∀ s ∈ (op.action.outcome mode m.regs.opened (Bus.peek m.bus) v).stores, own s.addr)
    (hd : (Encoding.ofParts? op mode).isSome = true := by decide) :
    ∃ next, Takes op mode v m next ∧ Workspace base code own before next.bus := by
  have hshows := h.shows_at hop hpc hd
  have houtcome : (Encoding.of op mode hd).outcome m.regs (Bus.peek m.bus) v =
      op.action.outcome mode m.regs.opened (Bus.peek m.bus) v := by
    rw [Encoding.outcome, Encoding.mnemonic_of, Encoding.mode_of]
  have hcells := step_cells hshows (by
    rw [houtcome]
    exact fun s hs => h.cells _ (hown s hs))
  rw [houtcome] at hcells
  obtain ⟨next, hstep, hpeek, hcell⟩ := hcells
  have hhalted : (op.action.outcome mode m.regs.opened (Bus.peek m.bus) v).regs.halted = false :=
    Action.halted_outcome (mt Mnemonic.action_eq_halt.1 hbrk) ..
  -- the code stays in place, since none of its own cells lies in it
  refine ⟨_, ⟨.step hstep hhalted (.refl _), rfl, hpeek⟩, h.keep (fun a ha => ?_) hcell⟩
  rw [hpeek]
  refine Outcome.stored_of_ne (fun s hs => ?_) _
  rintro rfl
  exact ha (hown s hs)

theorem take_quiet (h : Workspace base code own before m.bus) (i : Nat)
    (hop : code[i]? = some ⟨k, op, mode, v⟩) (hpc : m.regs.pc = base + UInt16.ofNat k)
    (hbrk : op ≠ .brk)
    (hquiet : (op.action.outcome mode m.regs.opened (Bus.peek m.bus) v).stores = [])
    (hd : (Encoding.ofParts? op mode).isSome = true := by decide) :
    ∃ next, Takes op mode v m next ∧ Workspace base code own before next.bus :=
  h.take i hop hpc hbrk (by
    rw [hquiet]
    exact List.forall_mem_nil _) hd

theorem take_store {s : Store} (h : Workspace base code own before m.bus) (i : Nat)
    (hop : code[i]? = some ⟨k, op, mode, v⟩) (hpc : m.regs.pc = base + UInt16.ofNat k)
    (hbrk : op ≠ .brk)
    (hstore : (op.action.outcome mode m.regs.opened (Bus.peek m.bus) v).stores = [s])
    (hown : own s.addr) (hd : (Encoding.ofParts? op mode).isSome = true := by decide) :
    ∃ next, Takes op mode v m next ∧ Workspace base code own before next.bus :=
  h.take i hop hpc hbrk (by rwa [hstore, List.forall_mem_singleton]) hd

theorem immediate (h : Workspace base code own before m.bus) (i : Nat)
    (hop : code[i]? = some ⟨k, op, .immediate, v⟩) (hpc : m.regs.pc = base + UInt16.ofNat k)
    (hd : (Encoding.ofParts? op .immediate).isSome = true := by decide) :
    Bus.peek m.bus (m.regs.pc + 1) = lowByte v := by
  have hshows := h.shows_at hop hpc hd
  rw [Encoding.bytes_two (Encoding.size_of hd)] at hshows
  exact hshows.2.1

theorem reaches {n : Nat} {mid : Machine β} (h : Workspace base code own before mid.bus)
    (i : Nat) (hop : code[i]? = some ⟨k, .brk, .implied, v⟩) (hruns : Runs n m mid)
    (hpc : mid.regs.pc = base + UInt16.ofNat k) : Reaches n (base + UInt16.ofNat k) m mid := by
  have hshows := h.shows_at hop hpc (by decide)
  have houtcome : (Encoding.of .brk .implied).outcome mid.regs (Bus.peek mid.bus) v =
      ⟨[], { mid.regs.opened.setFlag .brk true with halted := true }⟩ := by
    rw [Encoding.outcome, Encoding.mnemonic_of]
    rfl
  obtain ⟨next, hsame, hstep⟩ := step_quiet hshows (by rw [houtcome])
  rw [houtcome] at hstep
  exact ⟨hruns, hpc, _, hstep, rfl, hsame⟩

end Workspace

end Steps

end M6502
