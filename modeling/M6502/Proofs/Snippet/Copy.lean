import M6502.Program.Snippet
import M6502.Proofs.Snippet.Site

/-!
# Copies

The loop of a copy compares its index after counting it up, so an index that
comes back to zero has moved 256 bytes. After `i` rounds the first `i` bytes
stand at their new place and the others, the source among them, are as they
were.
-/

set_option autoImplicit false

namespace M6502.Snippet

def copyOps (dst src : UInt16) (len back : UInt8) : List Op :=
  [⟨0, .ldx, .immediate, 0⟩, ⟨2, .lda, .absoluteX, src⟩, ⟨5, .sta, .absoluteX, dst⟩,
    ⟨8, .inx, .implied, 0⟩, ⟨9, .cpx, .immediate, len.toUInt16⟩,
    ⟨11, .bne, .relative, back.toUInt16⟩, ⟨13, .brk, .implied, 0⟩]

section Loop

variable {β : Type} [Bus β] [Storage β] {base dst src : UInt16} {len back : UInt8}
  {own : UInt16 → Prop} {before : UInt16 → UInt8} {m : Machine β}

theorem copy_round (h : Workspace base (copyOps dst src len back) own before m.bus)
    (hback : base + UInt16.ofNat 13 + signExtend back = base + UInt16.ofNat 2)
    (hpc : m.regs.pc = base + UInt16.ofNat 2) (hown : own (dst + m.regs.x.toUInt16)) :
    ∃ next, Runs 5 m next ∧ Workspace base (copyOps dst src len back) own before next.bus ∧
      next.regs.pc = base + UInt16.ofNat (if m.regs.x + 1 = len then 13 else 2) ∧
      next.regs.frame = (m.regs.x + 1, m.regs.y, m.regs.sp) ∧
      Bus.peek next.bus = Function.update (Bus.peek m.bus) (dst + m.regs.x.toUInt16)
        (Bus.peek m.bus (src + m.regs.x.toUInt16)) := by
  obtain ⟨m₁, t₁, w₁⟩ := h.take_quiet 1 rfl hpc (by decide) rfl
  have p₁ : m₁.regs.pc = base + UInt16.ofNat 5 := t₁.pc_eq rfl rfl hpc
  have a₁ : m₁.regs.a = Bus.peek m.bus (src + m.regs.x.toUInt16) := by rw [t₁.regs_eq]; rfl
  have f₁ := t₁.frame_eq rfl rfl rfl
  have x₁ : m₁.regs.x = m.regs.x := congrArg Prod.fst f₁
  have q₁ := t₁.peek_quiet rfl
  obtain ⟨m₂, t₂, w₂⟩ := w₁.take_store 2 rfl p₁ (by decide) rfl
    (show own (dst + m₁.regs.x.toUInt16) by rwa [x₁])
  have p₂ : m₂.regs.pc = base + UInt16.ofNat 8 := t₂.pc_eq rfl rfl p₁
  have f₂ := t₂.frame_eq rfl rfl rfl
  have x₂ : m₂.regs.x = m₁.regs.x := congrArg Prod.fst f₂
  have q₂ : Bus.peek m₂.bus = Function.update (Bus.peek m.bus) (dst + m.regs.x.toUInt16)
      (Bus.peek m.bus (src + m.regs.x.toUInt16)) := by
    rw [t₂.peek_eq, ← a₁, ← x₁, ← q₁]
    rfl
  obtain ⟨m₃, t₃, w₃⟩ := w₂.take_quiet 3 rfl p₂ (by decide) rfl
  have p₃ : m₃.regs.pc = base + UInt16.ofNat 9 := t₃.pc_eq rfl rfl p₂
  have x₃ : m₃.regs.x = m.regs.x + 1 := by rw [t₃.regs_eq, ← x₁, ← x₂]; rfl
  have f₃ := t₃.frame_index x₃ rfl rfl
  have q₃ := t₃.peek_quiet rfl
  obtain ⟨m₄, t₄, w₄⟩ := w₃.take_quiet 4 rfl p₃ (by decide) rfl
  have p₄ : m₄.regs.pc = base + UInt16.ofNat 11 := t₄.pc_eq rfl rfl p₃
  have z₄ : m₄.regs.flag .zero = (m.regs.x + 1 - len == 0) := by
    rw [t₄.regs_eq, ← x₃, ← lowByte_toUInt16 len, ← w₃.immediate 4 rfl p₃]
    rfl
  have f₄ := t₄.frame_eq rfl rfl rfl
  have q₄ := t₄.peek_quiet rfl
  obtain ⟨m₅, t₅, w₅⟩ := w₄.take_quiet 5 rfl p₄ (by decide) rfl
  have p₅ : m₅.regs.pc = base + UInt16.ofNat (if m.regs.x + 1 = len then 13 else 2) := by
    rw [t₅.pc_branch rfl p₄ hback, z₄]
    by_cases hlast : m.regs.x + 1 = len
    · simp [hlast]
    · simp [hlast, sub_eq_zero_iff]
  have f₅ := t₅.frame_eq rfl rfl rfl
  have q₅ := t₅.peek_quiet rfl
  refine ⟨m₅, t₁.runs.trans (t₂.runs.trans (t₃.runs.trans (t₄.runs.trans t₅.runs))), w₅, p₅, ?_,
    by rw [q₅, q₄, q₃, q₂]⟩
  rw [f₅, f₄, f₃, f₂, f₁]
  rfl

def copyCount (len : UInt8) : Nat :=
  if len = 0 then 256 else len.toNat

theorem copyCount_pos (len : UInt8) : 0 < copyCount len := by
  rw [copyCount]
  split
  · decide
  · rename_i h
    rw [← UInt8.toNat_inj] at h
    exact Nat.pos_of_ne_zero h

theorem copyCount_le (len : UInt8) : copyCount len ≤ 256 := by
  have hlen := len.toNat_lt
  rw [copyCount]
  split <;> omega

theorem ofNat_eq_len {len : UInt8} {i : Nat} (hpos : 0 < i) (hi : i ≤ copyCount len) :
    UInt8.ofNat i = len ↔ i = copyCount len := by
  have hlen := len.toNat_lt
  rw [← UInt8.toNat_inj, UInt8.toNat_ofNat']
  rw [copyCount] at hi ⊢
  split at hi
  · rename_i hzero
    rw [if_pos hzero, hzero]
    show i % 256 = 0 ↔ _
    omega
  · rename_i hzero
    rw [if_neg hzero]
    omega

def copied (mem : UInt16 → UInt8) (dst src : UInt16) (n : Nat) (a : UInt16) : UInt8 :=
  if (a - dst).toNat < n then mem (src + (a - dst)) else mem a

theorem copied_eq_placed (mem : UInt16 → UInt8) (dst src : UInt16) (n : Nat) :
    copied mem dst src n = placed mem dst (fun k => mem (src + UInt16.ofNat k)) n := by
  funext a
  rw [copied, placed, UInt16.ofNat_toNat]

theorem copied_succ {mem : UInt16 → UInt8} {n i : Nat} (hn : n ≤ 0x10000) (hi : i < n)
    (hover : ∀ j k, j < k → k < n → dst + UInt16.ofNat j ≠ src + UInt16.ofNat k) :
    Function.update (copied mem dst src i) (dst + UInt16.ofNat i)
        (copied mem dst src i (src + UInt16.ofNat i)) = copied mem dst src (i + 1) := by
  -- the byte that comes next is still the one from before the copy
  have hsource : copied mem dst src i (src + UInt16.ofNat i) = mem (src + UInt16.ofNat i) := by
    refine if_neg fun hlt => hover _ i hlt hi ?_
    exact ((toNat_sub_eq_iff (by omega)).1 rfl).symm
  rw [hsource, copied_eq_placed, copied_eq_placed]
  exact placed_succ (by omega)

structure Copying (base dst src : UInt16) (len back : UInt8) (own : UInt16 → Prop)
    (before : UInt16 → UInt8) (i : Nat) (m next : Machine β) : Prop where
  runs : Runs (5 * i) m next
  workspace : Workspace base (copyOps dst src len back) own before next.bus
  pc_eq : next.regs.pc = base + UInt16.ofNat (if i = copyCount len then 13 else 2)
  frame_eq : next.regs.frame = (UInt8.ofNat i, m.regs.y, m.regs.sp)
  peek_eq : Bus.peek next.bus = copied (Bus.peek m.bus) dst src i

theorem copy_rounds (h : Workspace base (copyOps dst src len back) own before m.bus)
    (hback : base + UInt16.ofNat 13 + signExtend back = base + UInt16.ofNat 2)
    (hpc : m.regs.pc = base + UInt16.ofNat 2) (hx : m.regs.x = 0)
    (hown : ∀ i < copyCount len, own (dst + UInt16.ofNat i))
    (hover : ∀ j k, j < k → k < copyCount len → dst + UInt16.ofNat j ≠ src + UInt16.ofNat k)
    {i : Nat} (hi : i ≤ copyCount len) :
    ∃ next, Copying base dst src len back own before i m next := by
  have hle := copyCount_le len
  induction i with
  | zero =>
    have hpos := copyCount_pos len
    refine ⟨m, .refl m, h, ?_, congrArg₂ Prod.mk hx rfl, ?_⟩
    · rw [hpc, if_neg (by omega)]
    · funext a
      rw [copied, if_neg (Nat.not_lt_zero _)]
  | succ i ih =>
    obtain ⟨next, hc⟩ := ih (by omega)
    have hx : next.regs.x = UInt8.ofNat i := congrArg Prod.fst hc.frame_eq
    have hkeep : (next.regs.y, next.regs.sp) = (m.regs.y, m.regs.sp) :=
      congrArg Prod.snd hc.frame_eq
    have hindex : next.regs.x.toUInt16 = UInt16.ofNat i := by
      rw [hx, ← UInt16.toNat_inj, UInt8.toNat_toUInt16, UInt8.toNat_ofNat',
        UInt16.toNat_ofNat']
      omega
    obtain ⟨last, hruns, hw, hpc', hframe, hpeek⟩ := copy_round hc.workspace hback
      (by rw [hc.pc_eq, if_neg (by omega)]) (by rw [hindex]; exact hown i hi)
    have hcount : next.regs.x + 1 = UInt8.ofNat (i + 1) := by
      rw [hx, UInt8.ofNat_add]
      rfl
    refine ⟨last, hc.runs.trans hruns, hw, ?_, ?_, ?_⟩
    · rw [hpc', hcount]
      simp only [ofNat_eq_len (Nat.succ_pos i) hi]
    · rw [hframe, hcount, hkeep]
    · rw [hpeek, hindex, hc.peek_eq, copied_succ (by omega) hi hover]

theorem copy_reaches (h : Workspace base (copyOps dst src len back) own before m.bus)
    (hback : base + UInt16.ofNat 13 + signExtend back = base + UInt16.ofNat 2)
    (hpc : m.regs.pc = base + UInt16.ofNat 0)
    (hown : ∀ i < copyCount len, own (dst + UInt16.ofNat i))
    (hover : ∀ j k, j < k → k < copyCount len → dst + UInt16.ofNat j ≠ src + UInt16.ofNat k) :
    ∃ mid, Reaches (1 + 5 * copyCount len) (base + UInt16.ofNat 13) m mid ∧
      mid.regs.frame = (len, m.regs.y, m.regs.sp) ∧
      Bus.peek mid.bus = copied (Bus.peek m.bus) dst src (copyCount len) := by
  obtain ⟨m₁, t₁, w₁⟩ := h.take_quiet 0 rfl hpc (by decide) rfl
  have p₁ : m₁.regs.pc = base + UInt16.ofNat 2 := t₁.pc_eq rfl rfl hpc
  have hpeek := t₁.peek_quiet rfl
  have hx : m₁.regs.x = 0 := by
    rw [t₁.regs_eq]
    exact h.immediate 0 rfl hpc
  have hkeep : (m₁.regs.y, m₁.regs.sp) = (m.regs.y, m.regs.sp) :=
    congrArg Prod.snd (t₁.frame_index hx rfl rfl)
  obtain ⟨mid, hc⟩ := copy_rounds w₁ hback p₁ hx hown hover (Nat.le_refl _)
  have hend := hc.pc_eq
  rw [if_pos rfl] at hend
  refine ⟨mid, hc.workspace.reaches 6 rfl (t₁.runs.trans hc.runs) hend, ?_, ?_⟩
  · rw [hc.frame_eq, (ofNat_eq_len (copyCount_pos len) (Nat.le_refl _)).2 rfl, hkeep]
  · rw [hc.peek_eq, hpeek]

end Loop

theorem isCode_copy (p : Program) (dst src : UInt16) (len : UInt8) :
    ∀ c ∈ halting (copy p dst src len), c.isCode = true := by
  simp [halting, copy, copyLoop, Call.isCode]

theorem laid_copy (p : Program) (dst src : UInt16) (len : UInt8) (pos : Nat) :
    laid pos (halting (copy p dst src len)) =
      [⟨pos, .instruction ⟨.of .ldx .immediate, .value 0⟩⟩,
        ⟨pos + 2, .instruction ⟨.of .lda .absoluteX, .value src⟩⟩,
        ⟨pos + 5, .instruction ⟨.of .sta .absoluteX, .value dst⟩⟩,
        ⟨pos + 8, .instruction ⟨.of .inx .implied, .none⟩⟩,
        ⟨pos + 9, .instruction ⟨.of .cpx .immediate, .value len.toUInt16⟩⟩,
        ⟨pos + 11, .instruction ⟨.of .bne .relative, .displacement (p.nextName "copy_loop")⟩⟩,
        ⟨pos + 13, .instruction ⟨.of .brk .implied, .none⟩⟩] := by
  simp [halting, copy, copyLoop, laid, AddressingMode.size, AddressingMode.operandSize]

theorem labelled_copy (p : Program) (dst src : UInt16) (len : UInt8) (pos : Nat) :
    labelled pos (halting (copy p dst src len)) = [(p.nextName "copy_loop", pos + 2)] := by
  simp [halting, copy, copyLoop, labelled, AddressingMode.size, AddressingMode.operandSize]

theorem copy_workspace {β : Type} [Bus β] [Storage β] {s : Site} {dst src : UInt16} {len : UInt8}
    {bus : β} (h : s.Holds (halting (copy s.start dst src len)) bus) (own : UInt16 → Prop)
    (hcells : ∀ a, own a → Storage.Cell bus a)
    (hapart : ∀ i, s.start.position ≤ i →
      i < (s.stop (halting (copy s.start dst src len))).position → ¬ own (s.addr i)) :
    ∃ back, s.addr s.start.position + UInt16.ofNat 13 + signExtend back =
        s.addr s.start.position + UInt16.ofNat 2 ∧
      Workspace (s.addr s.start.position) (copyOps dst src len back) own (Bus.peek bus) bus := by
  have hcode := isCode_copy s.start dst src len
  have hlaid := laid_copy s.start dst src len s.start.position
  have hlabel : (s.start.nextName "copy_loop", s.start.position + 2) ∈
      labelled s.start.position (halting (copy s.start dst src len)) := by
    rw [labelled_copy]
    exact List.mem_singleton_self _
  obtain ⟨back, hencode, hreach⟩ := h.branch hcode (e := .of .bne .relative) (k := 11)
    (by rw [hlaid]; simp) hlabel
  refine ⟨back, hreach, h.workspace hcode ?_ hcells hapart⟩
  simp only [copyOps, List.forall_mem_cons, hlaid]
  exact ⟨⟨_, .value 0, Op.encoding?_of, by simp, rfl⟩,
    ⟨_, .value src, Op.encoding?_of, by simp, rfl⟩,
    ⟨_, .value dst, Op.encoding?_of, by simp, rfl⟩, ⟨_, .none, Op.encoding?_of, by simp, rfl⟩,
    ⟨_, .value len.toUInt16, Op.encoding?_of, by simp, rfl⟩,
    ⟨_, _, Op.encoding?_of, by simp, hencode⟩, ⟨_, .none, Op.encoding?_of, by simp, rfl⟩,
    List.forall_mem_nil _⟩

/-- A copy moves its bytes, when they go to cells outside of its code and none is overwritten
before it is read. Nothing else changes but A, X and the flags. -/
theorem copy_copies {β : Type} [Bus β] [Storage β] (s : Site) (dst src : UInt16) (len : UInt8)
    (m : Machine β) (h : s.Holds (halting (copy s.start dst src len)) m.bus)
    (hpc : m.regs.pc = s.addr s.start.position)
    (hcells : ∀ i < copyCount len, Storage.Cell m.bus (dst + UInt16.ofNat i))
    (hapart : ∀ i < copyCount len, ∀ j, s.start.position ≤ j →
      j < (s.stop (halting (copy s.start dst src len))).position → dst + UInt16.ofNat i ≠ s.addr j)
    (hover : ∀ i j, i < j → j < copyCount len → dst + UInt16.ofNat i ≠ src + UInt16.ofNat j) :
    ∃ mid, Reaches (1 + 5 * copyCount len) (s.addr (s.start.position + 13)) m mid ∧
      (∀ i < copyCount len,
        Bus.peek mid.bus (dst + UInt16.ofNat i) = Bus.peek m.bus (src + UInt16.ofNat i)) ∧
      (∀ a, (∀ i < copyCount len, a ≠ dst + UInt16.ofNat i) →
        Bus.peek mid.bus a = Bus.peek m.bus a) ∧
      mid.regs.x = len ∧ mid.regs.y = m.regs.y ∧ mid.regs.sp = m.regs.sp := by
  obtain ⟨back, hback, hw⟩ := copy_workspace h
    (fun a => ∃ i < copyCount len, a = dst + UInt16.ofNat i)
    (by rintro a ⟨i, hi, rfl⟩; exact hcells i hi)
    (by rintro j hfrom hto ⟨i, hi, hj⟩; exact hapart i hi j hfrom hto hj.symm)
  obtain ⟨mid, hreaches, hframe, hpeek⟩ := copy_reaches hw hback
    (by rw [hpc, Site.addr_add, Nat.add_zero]) (fun i hi => ⟨i, hi, rfl⟩) hover
  rw [Site.addr_add] at hreaches
  obtain ⟨hx, hy, hsp⟩ : mid.regs.x = len ∧ mid.regs.y = m.regs.y ∧ mid.regs.sp = m.regs.sp := by
    simpa [Registers.frame] using hframe
  have hle := copyCount_le len
  refine ⟨mid, hreaches, fun i hi => ?_, fun a ha => ?_, hx, hy, hsp⟩
  · have hoffset : dst + UInt16.ofNat i - dst = UInt16.ofNat i := by
      rw [UInt16.add_comm, UInt16.add_sub_cancel]
    rw [hpeek, copied, hoffset, if_pos]
    rw [UInt16.toNat_ofNat']
    omega
  · rw [hpeek, copied, if_neg]
    intro hlt
    refine ha _ hlt ?_
    rw [UInt16.ofNat_toNat, UInt16.add_comm, UInt16.sub_add_cancel]

def copySite : Site :=
  ⟨20, [.setOrigin 0x8000], [.putBytes [0xDE, 0xAD, 0xBE]]⟩

def copyImage : Array UInt8 :=
  #[0xA2, 0x00, 0xBD, 0x0E, 0x80, 0x9D, 0x10, 0x00, 0xE8, 0xE0, 0x03, 0xD0, 0xF5, 0x00,
    0xDE, 0xAD, 0xBE, 0x00, 0x00, 0x00]

theorem copy_copies_from_rom :
    ∃ mid, Reaches 16 0x800D ⟨.atReset 0x8000, board (Array.replicate 0x20 0) copyImage⟩ mid ∧
      Bus.peek mid.bus 0x11 = 0xAD ∧ mid.regs.x = 3 := by
  have hstop : (copySite.stop (halting (copy copySite.start 0x10 0x800E 3))).position = 14 := by
    decide +kernel
  have hbehind : ∀ u ∈ (copySite.stop (halting (copy copySite.start 0x10 0x800E 3))).placements
      copySite.after, 14 ≤ u.position := by decide +kernel
  have hbuild : (copySite.final (halting (copy copySite.start 0x10 0x800E 3))).build false =
      .ok copyImage := by decide +kernel
  have hholds : copySite.Holds (halting (copy copySite.start 0x10 0x800E 3))
      (board (Array.replicate 0x20 0) copyImage) := by
    refine Site.holds_of_shows (by decide +kernel) (by decide +kernel) (fun u hu i _ hi => ?_)
      hbuild (by rw [hstop]; decide) (board_shows (by decide) (by decide))
    rw [hstop] at hi
    exact Placement.covers_of_lt (Nat.lt_of_lt_of_le hi (hbehind u hu))
  have hcells : ∀ i < copyCount 3, ((0x10 : UInt16) + UInt16.ofNat i).toNat < 0x20 := by decide
  have hapart : ∀ i < copyCount 3, ∀ j < 14,
      (0x10 : UInt16) + UInt16.ofNat i ≠ copySite.addr j := by decide +kernel
  have hover : ∀ j < copyCount 3, ∀ i < j,
      (0x10 : UInt16) + UInt16.ofNat i ≠ 0x800E + UInt16.ofNat j := by decide
  obtain ⟨mid, hreaches, hcopied, -, hx, -⟩ := copy_copies copySite 0x10 0x800E 3
    ⟨.atReset 0x8000, board (Array.replicate 0x20 0) copyImage⟩ hholds (by decide +kernel)
    (fun i hi => board_cell (by decide) (hcells i hi))
    (fun i hi j _ hj => hapart i hi j (hstop ▸ hj)) (fun i j hij hj => hover j hj i hij)
  exact ⟨mid, hreaches, hcopied 1 (by decide), hx⟩

end M6502.Snippet
