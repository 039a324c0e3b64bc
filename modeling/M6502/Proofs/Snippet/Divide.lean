import M6502.Program.Snippet
import M6502.Proofs.Snippet.Site
import Mathlib.Tactic.IntervalCases

/-!
# Divisions

A division shifts the numerator out at the top of its byte and the quotient
in at the bottom. After `k` bits the accumulator and the low bits of the
byte divide the top `k` bits of the numerator; the remainder stays below the
number of these bits, so the shift never loses a bit of it.
-/

set_option autoImplicit false

namespace M6502.Snippet

structure Divides (n d k q r : Nat) : Prop where
  exact : d * q + r = n / 2 ^ (8 - k)
  small : q < 2 ^ k
  reduced : r < d ∨ d = 0 ∧ q + 1 = 2 ^ k

namespace Divides

variable {n d k q r : Nat}

theorem start (hn : n < 256) : Divides n d 0 0 0 := by
  refine ⟨?_, Nat.one_pos, ?_⟩
  · rw [Nat.sub_zero, Nat.mul_zero]
    exact (Nat.div_eq_of_lt hn).symm
  · rcases Nat.eq_zero_or_pos d with hd | hd
    · exact .inr ⟨hd, rfl⟩
    · exact .inl hd

theorem prefix_succ (n : Nat) (hk : k < 8) :
    n / 2 ^ (8 - (k + 1)) = 2 * (n / 2 ^ (8 - k)) + n / 2 ^ (7 - k) % 2 := by
  have hpow : 2 ^ (8 - k) = 2 ^ (7 - k) * 2 := by
    rw [← Nat.pow_succ]
    congr 1
    omega
  rw [show 8 - (k + 1) = 7 - k by omega, hpow, ← Nat.div_div_eq_div_mul]
  omega

theorem skip (h : Divides n d k q r) (hk : k < 8) (hlt : 2 * r + n / 2 ^ (7 - k) % 2 < d) :
    Divides n d (k + 1) (2 * q) (2 * r + n / 2 ^ (7 - k) % 2) := by
  have hsmall := h.small
  refine ⟨?_, ?_, .inl hlt⟩
  · rw [prefix_succ n hk, ← h.exact, Nat.mul_add, Nat.mul_left_comm, Nat.add_assoc]
  · rw [Nat.pow_succ]
    omega

theorem subtract (h : Divides n d k q r) (hk : k < 8) (hle : d ≤ 2 * r + n / 2 ^ (7 - k) % 2) :
    Divides n d (k + 1) (2 * q + 1) (2 * r + n / 2 ^ (7 - k) % 2 - d) := by
  have hsmall := h.small
  refine ⟨?_, ?_, ?_⟩
  · rw [prefix_succ n hk, ← h.exact, Nat.mul_add, Nat.mul_add, Nat.mul_left_comm]
    omega
  · rw [Nat.pow_succ]
    omega
  · rcases h.reduced with hr | ⟨hd, hq⟩
    · omega
    · refine .inr ⟨hd, ?_⟩
      rw [Nat.pow_succ]
      omega

theorem room (h : Divides n d k q r) (hn : n < 256) (hk : k < 8) :
    2 * r + n / 2 ^ (7 - k) % 2 < 256 := by
  have hexact := h.exact
  have hnext := prefix_succ n hk
  have hle := Nat.div_le_self n (2 ^ (8 - (k + 1)))
  omega

theorem remainder_eq (h : Divides n d 8 q r) : r = n % d := by
  have hexact := h.exact
  rw [Nat.sub_self, Nat.pow_zero, Nat.div_one] at hexact
  rcases h.reduced with hr | ⟨rfl, -⟩
  · rw [← hexact, Nat.mul_add_mod, Nat.mod_eq_of_lt hr]
  · rw [Nat.mod_zero, ← hexact, Nat.zero_mul, Nat.zero_add]

theorem quotient_eq (h : Divides n d 8 q r) : q = if d = 0 then 255 else n / d := by
  have hexact := h.exact
  rw [Nat.sub_self, Nat.pow_zero, Nat.div_one] at hexact
  rcases h.reduced with hr | ⟨hd, hq⟩
  · have hpos : 0 < d := by omega
    rw [if_neg (by omega), ← hexact, Nat.mul_add_div hpos, Nat.div_eq_of_lt hr, Nat.add_zero]
  · rw [if_pos hd]
    omega

end Divides

/-- The top bit of the numerator's byte is the next bit of the numerator. -/
theorem top_bit {n k q : Nat} (hk : k < 7) (hq : q < 2 ^ k) :
    128 ≤ (n * 2 ^ (k + 1) + q) % 256 ↔ n / 2 ^ (7 - (k + 1)) % 2 = 1 := by
  interval_cases k <;> omega

def divideOps (num den : UInt16) (skip back : UInt8) : List Op :=
  [⟨0, .lda, .immediate, 0⟩, ⟨2, .ldx, .immediate, 8⟩, ⟨4, .asl, .absolute, num⟩,
    ⟨7, .rol, .implied, 0⟩, ⟨8, .cmp, .absolute, den⟩,
    ⟨11, .bcc, .relative, skip.toUInt16⟩, ⟨13, .sbc, .absolute, den⟩,
    ⟨16, .rol, .absolute, num⟩, ⟨19, .dex, .implied, 0⟩,
    ⟨20, .bne, .relative, back.toUInt16⟩, ⟨22, .brk, .implied, 0⟩]

section Loop

variable {β : Type} [Bus β] [Storage β] {base num den : UInt16} {skip back : UInt8}
  {before : UInt16 → UInt8} {m : Machine β}

/-- The accumulator takes the next bit in and is compared with the denominator. -/
theorem divide_compare
    (h : Workspace base (divideOps num den skip back) (· = num) before m.bus)
    (hskip : base + UInt16.ofNat 13 + signExtend skip = base + UInt16.ofNat 16)
    (hpc : m.regs.pc = base + UInt16.ofNat 7) {s : UInt8}
    (hs : s = UInt8.ofNat (2 * m.regs.a.toNat + m.regs.status.carry.toNat)) :
    ∃ next, Runs 3 m next ∧
      Workspace base (divideOps num den skip back) (· = num) before next.bus ∧
      next.regs.pc = base + UInt16.ofNat (if Bus.peek m.bus den ≤ s then 13 else 16) ∧
      next.regs.a = s ∧ next.regs.status.carry = decide (Bus.peek m.bus den ≤ s) ∧
      next.regs.frame = m.regs.frame ∧ Bus.peek next.bus = Bus.peek m.bus := by
  obtain ⟨m₁, t₁, w₁⟩ := h.take_quiet 3 rfl hpc (by decide) rfl
  have p₁ : m₁.regs.pc = base + UInt16.ofNat 8 := t₁.pc_eq rfl rfl hpc
  have q₁ := t₁.peek_quiet rfl
  have a₁ : m₁.regs.a = s := by rw [t₁.regs_eq, hs]; rfl
  have f₁ := t₁.frame_eq rfl rfl rfl
  obtain ⟨m₂, t₂, w₂⟩ := w₁.take_quiet 4 rfl p₁ (by decide) rfl
  have p₂ : m₂.regs.pc = base + UInt16.ofNat 11 := t₂.pc_eq rfl rfl p₁
  have q₂ := (t₂.peek_quiet rfl).trans q₁
  have c₂ : m₂.regs.status.carry = decide (Bus.peek m.bus den ≤ s) := by
    rw [t₂.regs_eq, ← a₁, ← q₁]
    rfl
  have a₂ : m₂.regs.a = m₁.regs.a := t₂.get_eq (r := .a) rfl
  have f₂ := t₂.frame_eq rfl rfl rfl
  obtain ⟨m₃, t₃, w₃⟩ := w₂.take_quiet 5 rfl p₂ (by decide) rfl
  have a₃ : m₃.regs.a = m₂.regs.a := t₃.get_eq (r := .a) rfl
  have f₃ := t₃.frame_eq rfl rfl rfl
  have s₃ := t₃.status_branch rfl
  have q₃ := (t₃.peek_quiet rfl).trans q₂
  have p₃ : m₃.regs.pc = base + UInt16.ofNat (if Bus.peek m.bus den ≤ s then 13 else 16) := by
    rw [t₃.pc_branch rfl p₂ hskip, show m₂.regs.flag .carry = _ from c₂]
    by_cases hle : Bus.peek m.bus den ≤ s
    · simp [hle]
    · simp [hle]
  exact ⟨m₃, t₁.runs.trans (t₂.runs.trans t₃.runs), w₃, p₃, a₃.trans (a₂.trans a₁),
    (congrArg Status.carry s₃).trans c₂, f₃.trans (f₂.trans f₁), q₃⟩

/-- Adding the complement and one subtracts, without a borrow where the difference is not
negative. -/
theorem addWithCarry_complement {a b : UInt8} (h : b ≤ a) :
    (addWithCarry a (~~~b) true).value = a - b ∧ (addWithCarry a (~~~b) true).carry = true := by
  have ha := a.toNat_lt
  have hle := UInt8.le_iff_toNat_le.1 h
  have htotal : a.toNat + (~~~b).toNat + true.toNat = 256 + (a.toNat - b.toNat) := by
    have hone : true.toNat = 1 := rfl
    have hsize : UInt8.size = 256 := rfl
    rw [UInt8.toNat_not, hone, hsize]
    omega
  rw [addWithCarry, htotal]
  constructor
  · rw [← UInt8.toNat_inj, UInt8.toNat_ofNat', UInt8.toNat_sub_of_le _ _ h]
    omega
  · rw [decide_eq_true_eq]
    omega

theorem divide_subtract
    (h : Workspace base (divideOps num den skip back) (· = num) before m.bus)
    (hpc : m.regs.pc = base + UInt16.ofNat 13) (hcarry : m.regs.status.carry = true)
    (hle : Bus.peek m.bus den ≤ m.regs.a) :
    ∃ next, Runs 1 m next ∧
      Workspace base (divideOps num den skip back) (· = num) before next.bus ∧
      next.regs.pc = base + UInt16.ofNat 16 ∧
      next.regs.a = m.regs.a - Bus.peek m.bus den ∧ next.regs.status.carry = true ∧
      next.regs.frame = m.regs.frame ∧ Bus.peek next.bus = Bus.peek m.bus := by
  obtain ⟨m₁, t₁, w₁⟩ := h.take_quiet 6 rfl hpc (by decide) rfl
  have r₁ : m₁.regs.a = (addWithCarry m.regs.a (~~~Bus.peek m.bus den) true).value ∧
      m₁.regs.status.carry = (addWithCarry m.regs.a (~~~Bus.peek m.bus den) true).carry := by
    rw [t₁.regs_eq, ← hcarry]
    exact ⟨rfl, rfl⟩
  obtain ⟨hvalue, hno⟩ := addWithCarry_complement hle
  refine ⟨m₁, t₁.runs, w₁, t₁.pc_eq rfl rfl hpc, r₁.1.trans hvalue, r₁.2.trans hno,
    t₁.frame_eq rfl rfl rfl, t₁.peek_quiet rfl⟩

theorem divide_bit
    (h : Workspace base (divideOps num den skip back) (· = num) before m.bus)
    (hskip : base + UInt16.ofNat 13 + signExtend skip = base + UInt16.ofNat 16)
    (hpc : m.regs.pc = base + UInt16.ofNat 7) {s d : UInt8}
    (hs : s = UInt8.ofNat (2 * m.regs.a.toNat + m.regs.status.carry.toNat))
    (hd : Bus.peek m.bus den = d) :
    ∃ steps mid, Runs steps m mid ∧
      Workspace base (divideOps num den skip back) (· = num) before mid.bus ∧
      mid.regs.pc = base + UInt16.ofNat 16 ∧ mid.regs.a = (if d ≤ s then s - d else s) ∧
      mid.regs.status.carry = decide (d ≤ s) ∧ mid.regs.frame = m.regs.frame ∧
      Bus.peek mid.bus = Bus.peek m.bus := by
  obtain ⟨m₁, runs₁, w₁, p₁, a₁, c₁, f₁, q₁⟩ := divide_compare h hskip hpc hs
  rw [hd] at p₁ c₁
  by_cases hle : d ≤ s
  · rw [if_pos hle] at p₁ ⊢
    rw [decide_eq_true hle] at c₁ ⊢
    rw [← q₁] at hd
    obtain ⟨m₂, runs₂, w₂, p₂, a₂, c₂, f₂, q₂⟩ := divide_subtract w₁ p₁ c₁ (by rwa [hd, a₁])
    rw [hd, a₁] at a₂
    exact ⟨_, m₂, runs₁.trans runs₂, w₂, p₂, a₂, c₂, f₂.trans f₁, q₂.trans q₁⟩
  · rw [if_neg hle] at p₁ ⊢
    exact ⟨_, m₁, runs₁, w₁, p₁, a₁, c₁, f₁, q₁⟩

/-- The quotient takes its bit in while the numerator gives up its top bit. -/
theorem divide_shift
    (h : Workspace base (divideOps num den skip back) (· = num) before m.bus)
    (hback : base + UInt16.ofNat 22 + signExtend back = base + UInt16.ofNat 7)
    (hpc : m.regs.pc = base + UInt16.ofNat 16) :
    ∃ next, Runs 3 m next ∧
      Workspace base (divideOps num den skip back) (· = num) before next.bus ∧
      next.regs.pc = base + UInt16.ofNat (if m.regs.x = 1 then 22 else 7) ∧
      next.regs.a = m.regs.a ∧
      next.regs.status.carry = isNegative (Bus.peek m.bus num) ∧
      next.regs.frame = (m.regs.x - 1, m.regs.y, m.regs.sp) ∧
      Bus.peek next.bus num =
        UInt8.ofNat (2 * (Bus.peek m.bus num).toNat + m.regs.status.carry.toNat) := by
  obtain ⟨m₁, t₁, w₁⟩ := h.take_store 7 rfl hpc (by decide) rfl rfl
  have p₁ : m₁.regs.pc = base + UInt16.ofNat 19 := t₁.pc_eq rfl rfl hpc
  have a₁ : m₁.regs.a = m.regs.a := t₁.get_eq (r := .a) rfl
  have c₁ : m₁.regs.status.carry = isNegative (Bus.peek m.bus num) := by rw [t₁.regs_eq]; rfl
  have f₁ := t₁.frame_eq rfl rfl rfl
  have x₁ : m₁.regs.x = m.regs.x := congrArg Prod.fst f₁
  have q₁ : Bus.peek m₁.bus num =
      UInt8.ofNat (2 * (Bus.peek m.bus num).toNat + m.regs.status.carry.toNat) := by
    rw [t₁.peek_eq]
    exact Function.update_self ..
  obtain ⟨m₂, t₂, w₂⟩ := w₁.take_quiet 8 rfl p₁ (by decide) rfl
  have p₂ : m₂.regs.pc = base + UInt16.ofNat 20 := t₂.pc_eq rfl rfl p₁
  have a₂ : m₂.regs.a = m₁.regs.a := t₂.get_eq (r := .a) rfl
  have c₂ : m₂.regs.status.carry = m₁.regs.status.carry := by rw [t₂.regs_eq]; rfl
  have z₂ : m₂.regs.flag .zero = (m.regs.x - 1 == 0) := by rw [t₂.regs_eq, ← x₁]; rfl
  have x₂ : m₂.regs.x = m.regs.x - 1 := by rw [t₂.regs_eq, ← x₁]; rfl
  have f₂ := t₂.frame_index x₂ rfl rfl
  have q₂ := t₂.peek_quiet rfl
  obtain ⟨m₃, t₃, w₃⟩ := w₂.take_quiet 9 rfl p₂ (by decide) rfl
  have a₃ : m₃.regs.a = m₂.regs.a := t₃.get_eq (r := .a) rfl
  have f₃ := t₃.frame_eq rfl rfl rfl
  have s₃ := t₃.status_branch rfl
  have q₃ := (t₃.peek_quiet rfl).trans q₂
  have p₃ : m₃.regs.pc = base + UInt16.ofNat (if m.regs.x = 1 then 22 else 7) := by
    rw [t₃.pc_branch rfl p₂ hback, z₂]
    by_cases hlast : m.regs.x = 1
    · simp [hlast]
    · simp [hlast, sub_eq_zero_iff]
  refine ⟨m₃, t₁.runs.trans (t₂.runs.trans t₃.runs), w₃, p₃, a₃.trans (a₂.trans a₁),
    (congrArg Status.carry s₃).trans (c₂.trans c₁), ?_, by rw [q₃, q₁]⟩
  rw [f₃, f₂, f₁]
  rfl

structure Dividing (base num den : UInt16) (skip back : UInt8) (before : UInt16 → UInt8)
    (n d k : Nat) (m next : Machine β) : Prop where
  runs : ∃ steps, Runs steps m next
  workspace : Workspace base (divideOps num den skip back) (· = num) before next.bus
  pc_eq : next.regs.pc = base + UInt16.ofNat (if k = 8 then 22 else 7)
  frame_eq : next.regs.frame = (UInt8.ofNat (8 - k), m.regs.y, m.regs.sp)
  carry_eq : k < 8 → next.regs.status.carry.toNat = n / 2 ^ (7 - k) % 2
  divides : ∃ q, Divides n d k q next.regs.a.toNat ∧
    (Bus.peek next.bus num).toNat = (n * 2 ^ (k + 1) + q) % 256

theorem toNat_isNegative (b : UInt8) : (isNegative b).toNat = b.toNat / 128 := by
  have hb := b.toNat_lt
  cases hn : isNegative b with
  | true =>
    have hneg := isNegative_iff.1 hn
    show 1 = _
    omega
  | false =>
    have hneg := mt isNegative_iff.2 (Bool.not_eq_true _ ▸ hn)
    show 0 = _
    omega

theorem divide_start
    (h : Workspace base (divideOps num den skip back) (· = num) before m.bus)
    (hpc : m.regs.pc = base + UInt16.ofNat 0) (d : Nat) :
    ∃ next, Dividing base num den skip back before (Bus.peek m.bus num).toNat d 0 m next := by
  obtain ⟨m₁, t₁, w₁⟩ := h.take_quiet 0 rfl hpc (by decide) rfl
  have p₁ : m₁.regs.pc = base + UInt16.ofNat 2 := t₁.pc_eq rfl rfl hpc
  have a₁ : m₁.regs.a = 0 := by
    rw [t₁.regs_eq]
    exact h.immediate 0 rfl hpc
  have f₁ := t₁.frame_eq rfl rfl rfl
  have q₁ := t₁.peek_quiet rfl
  obtain ⟨m₂, t₂, w₂⟩ := w₁.take_quiet 1 rfl p₁ (by decide) rfl
  have p₂ : m₂.regs.pc = base + UInt16.ofNat 4 := t₂.pc_eq rfl rfl p₁
  have a₂ : m₂.regs.a = m₁.regs.a := t₂.get_eq (r := .a) rfl
  have x₂ : m₂.regs.x = 8 := by
    rw [t₂.regs_eq]
    exact w₁.immediate 1 rfl p₁
  have f₂ := t₂.frame_index x₂ rfl rfl
  have q₂ := (t₂.peek_quiet rfl).trans q₁
  obtain ⟨m₃, t₃, w₃⟩ := w₂.take_store 2 rfl p₂ (by decide) rfl rfl
  have p₃ : m₃.regs.pc = base + UInt16.ofNat 7 := t₃.pc_eq rfl rfl p₂
  have a₃ : m₃.regs.a = m₂.regs.a := t₃.get_eq (r := .a) rfl
  have f₃ := t₃.frame_eq rfl rfl rfl
  have c₃ : m₃.regs.status.carry = isNegative (Bus.peek m.bus num) := by
    rw [t₃.regs_eq, ← q₂]
    rfl
  have q₃ : Bus.peek m₃.bus num = UInt8.ofNat (2 * (Bus.peek m.bus num).toNat) := by
    rw [t₃.peek_eq, ← q₂]
    exact Function.update_self ..
  have hlt := (Bus.peek m.bus num).toNat_lt
  refine ⟨m₃, ⟨_, t₁.runs.trans (t₂.runs.trans t₃.runs)⟩, w₃, p₃, ?_, fun _ => ?_, 0, ?_, ?_⟩
  · rw [f₃, f₂, f₁]
    rfl
  · rw [c₃, toNat_isNegative]
    omega
  · rw [a₃, a₂, a₁]
    exact Divides.start hlt
  · rw [q₃, UInt8.toNat_ofNat']
    omega

theorem divide_round {n d k : Nat} {next : Machine β} (hn : n < 256) (hk : k < 8)
    (hskip : base + UInt16.ofNat 13 + signExtend skip = base + UInt16.ofNat 16)
    (hback : base + UInt16.ofNat 22 + signExtend back = base + UInt16.ofNat 7)
    (hne : den ≠ num) (hd : (before den).toNat = d)
    (h : Dividing base num den skip back before n d k m next) :
    ∃ last, Dividing base num den skip back before n d (k + 1) m last := by
  obtain ⟨⟨steps, hruns⟩, hw, hpc, hframe, hcarry, q, hdivides, hnum⟩ := h
  have hcarry := hcarry hk
  rw [if_neg (by omega)] at hpc
  obtain ⟨s, hs⟩ : ∃ s, s = UInt8.ofNat (2 * next.regs.a.toNat + next.regs.status.carry.toNat) :=
    ⟨_, rfl⟩
  -- the remainder is small enough for the bit that the rotation drops to be zero
  have hsum : s.toNat = 2 * next.regs.a.toNat + n / 2 ^ (7 - k) % 2 := by
    rw [hs, UInt8.toNat_ofNat', hcarry]
    exact Nat.mod_eq_of_lt (hdivides.room hn hk)
  obtain ⟨steps₁, m₁, runs₁, w₁, p₁, a₁, c₁, f₁, q₁⟩ :=
    divide_bit hw hskip hpc hs (hw.others den hne)
  obtain ⟨m₂, runs₂, w₂, p₂, a₂, c₂, f₂, q₂⟩ := divide_shift w₁ hback p₁
  rw [q₁] at c₂ q₂
  have hx : m₁.regs.x = UInt8.ofNat (8 - k) := congrArg Prod.fst (f₁.trans hframe)
  refine ⟨m₂, ⟨_, hruns.trans (runs₁.trans runs₂)⟩, w₂, ?_, ?_, fun hk' => ?_, ?_⟩
  · have hlast : UInt8.ofNat (8 - k) = 1 ↔ k + 1 = 8 := by interval_cases k <;> decide
    rw [p₂, hx]
    simp only [hlast]
  · have hcount : UInt8.ofNat (8 - k) - 1 = UInt8.ofNat (8 - (k + 1)) := by
      interval_cases k <;> rfl
    have hkeep : (m₁.regs.y, m₁.regs.sp) = (m.regs.y, m.regs.sp) :=
      congrArg Prod.snd (f₁.trans hframe)
    rw [f₂, hx, hcount, hkeep]
  · have htop := top_bit (n := n) (show k < 7 by omega) hdivides.small
    rw [c₂, toNat_isNegative, hnum]
    omega
  · have hle : before den ≤ s ↔ d ≤ s.toNat := by rw [UInt8.le_iff_toNat_le, hd]
    have hshift (bit : Nat) : (2 * ((n * 2 ^ (k + 1) + q) % 256) + bit) % 256 =
        (n * 2 ^ (k + 1 + 1) + (2 * q + bit)) % 256 := by
      rw [Nat.pow_succ 2 (k + 1), ← Nat.mul_assoc]
      omega
    rw [q₂, UInt8.toNat_ofNat', hnum, c₁, hshift, a₂, a₁]
    by_cases hfits : before den ≤ s
    · refine ⟨2 * q + 1, ?_, ?_⟩
      · rw [if_pos hfits, UInt8.toNat_sub_of_le _ _ hfits, hd, hsum]
        exact hdivides.subtract hk (hsum ▸ hle.1 hfits)
      · rw [decide_eq_true hfits]
        rfl
    · refine ⟨2 * q, ?_, ?_⟩
      · rw [if_neg hfits, hsum]
        exact hdivides.skip hk (by have hlt := mt hle.2 hfits; omega)
      · rw [decide_eq_false hfits]
        rfl

theorem divide_rounds {n d k : Nat} {next : Machine β} (hn : n < 256) (hk : k ≤ 8)
    (hskip : base + UInt16.ofNat 13 + signExtend skip = base + UInt16.ofNat 16)
    (hback : base + UInt16.ofNat 22 + signExtend back = base + UInt16.ofNat 7)
    (hne : den ≠ num) (hd : (before den).toNat = d)
    (h : Dividing base num den skip back before n d 0 m next) :
    ∃ last, Dividing base num den skip back before n d k m last := by
  induction k with
  | zero => exact ⟨next, h⟩
  | succ k ih =>
    obtain ⟨mid, hmid⟩ := ih (by omega)
    exact divide_round hn hk hskip hback hne hd hmid

theorem divide_reaches
    (h : Workspace base (divideOps num den skip back) (· = num) (Bus.peek m.bus) m.bus)
    (hskip : base + UInt16.ofNat 13 + signExtend skip = base + UInt16.ofNat 16)
    (hback : base + UInt16.ofNat 22 + signExtend back = base + UInt16.ofNat 7)
    (hne : den ≠ num) (hpc : m.regs.pc = base + UInt16.ofNat 0) :
    ∃ steps mid, Reaches steps (base + UInt16.ofNat 22) m mid ∧
      mid.regs.a.toNat = (Bus.peek m.bus num).toNat % (Bus.peek m.bus den).toNat ∧
      (Bus.peek mid.bus num).toNat = (if (Bus.peek m.bus den).toNat = 0 then 255
        else (Bus.peek m.bus num).toNat / (Bus.peek m.bus den).toNat) ∧
      mid.regs.frame = (0, m.regs.y, m.regs.sp) ∧
      ∀ a, a ≠ num → Bus.peek mid.bus a = Bus.peek m.bus a := by
  obtain ⟨next, hstart⟩ := divide_start h hpc (Bus.peek m.bus den).toNat
  obtain ⟨mid, hlast⟩ := divide_rounds (Bus.peek m.bus num).toNat_lt (Nat.le_refl 8) hskip hback
    hne rfl hstart
  obtain ⟨⟨steps, hruns⟩, hw, hend, hframe, -, q, hdivides, hnum⟩ := hlast
  have hsmall := hdivides.small
  refine ⟨steps, mid, hw.reaches 10 rfl hruns hend, hdivides.remainder_eq, ?_, hframe,
    fun a ha => hw.others a ha⟩
  rw [hnum, ← hdivides.quotient_eq]
  omega

end Loop

theorem isCode_divide (p : Program) (num den : UInt16) :
    ∀ c ∈ halting (divide p num den), c.isCode = true := by
  simp [halting, divide, divideLoop, Call.isCode]

theorem laid_divide (p : Program) (num den : UInt16) (pos : Nat) :
    laid pos (halting (divide p num den)) =
      [⟨pos, .instruction ⟨.of .lda .immediate, .value 0⟩⟩,
        ⟨pos + 2, .instruction ⟨.of .ldx .immediate, .value 8⟩⟩,
        ⟨pos + 4, .instruction ⟨.of .asl .absolute, .value num⟩⟩,
        ⟨pos + 7, .instruction ⟨.of .rol .implied, .none⟩⟩,
        ⟨pos + 8, .instruction ⟨.of .cmp .absolute, .value den⟩⟩,
        ⟨pos + 11, .instruction ⟨.of .bcc .relative, .displacement (p.mint.nextName "div_skip")⟩⟩,
        ⟨pos + 13, .instruction ⟨.of .sbc .absolute, .value den⟩⟩,
        ⟨pos + 16, .instruction ⟨.of .rol .absolute, .value num⟩⟩,
        ⟨pos + 19, .instruction ⟨.of .dex .implied, .none⟩⟩,
        ⟨pos + 20, .instruction ⟨.of .bne .relative, .displacement (p.nextName "div_bit")⟩⟩,
        ⟨pos + 22, .instruction ⟨.of .brk .implied, .none⟩⟩] := by
  simp [halting, divide, divideLoop, laid, AddressingMode.size, AddressingMode.operandSize]

theorem labelled_divide (p : Program) (num den : UInt16) (pos : Nat) :
    labelled pos (halting (divide p num den)) =
      [(p.nextName "div_bit", pos + 7), (p.mint.nextName "div_skip", pos + 16)] := by
  simp [halting, divide, divideLoop, labelled, AddressingMode.size, AddressingMode.operandSize]

theorem divide_workspace {β : Type} [Bus β] [Storage β] {s : Site} {num den : UInt16} {bus : β}
    (h : s.Holds (halting (divide s.start num den)) bus) (own : UInt16 → Prop)
    (hcells : ∀ a, own a → Storage.Cell bus a)
    (hapart : ∀ i, s.start.position ≤ i →
      i < (s.stop (halting (divide s.start num den))).position → ¬ own (s.addr i)) :
    ∃ skip back, s.addr s.start.position + UInt16.ofNat 13 + signExtend skip =
        s.addr s.start.position + UInt16.ofNat 16 ∧
      s.addr s.start.position + UInt16.ofNat 22 + signExtend back =
        s.addr s.start.position + UInt16.ofNat 7 ∧
      Workspace (s.addr s.start.position) (divideOps num den skip back) own (Bus.peek bus) bus := by
  have hcode := isCode_divide s.start num den
  have hlaid := laid_divide s.start num den s.start.position
  have hlabels := labelled_divide s.start num den s.start.position
  have hskip : (s.start.mint.nextName "div_skip", s.start.position + 16) ∈
      labelled s.start.position (halting (divide s.start num den)) := by
    rw [hlabels]
    exact List.mem_cons_of_mem _ (List.mem_singleton_self _)
  have hbit : (s.start.nextName "div_bit", s.start.position + 7) ∈
      labelled s.start.position (halting (divide s.start num den)) := by
    rw [hlabels]
    exact List.mem_cons_self
  obtain ⟨skip, hencode, hreach⟩ := h.branch hcode (e := .of .bcc .relative) (k := 11)
    (by rw [hlaid]; simp) hskip
  obtain ⟨back, hencode', hreach'⟩ := h.branch hcode (e := .of .bne .relative) (k := 20)
    (by rw [hlaid]; simp) hbit
  refine ⟨skip, back, hreach, hreach', h.workspace hcode ?_ hcells hapart⟩
  simp only [divideOps, List.forall_mem_cons, hlaid]
  exact ⟨⟨_, .value 0, Op.encoding?_of, by simp, rfl⟩,
    ⟨_, .value 8, Op.encoding?_of, by simp, rfl⟩, ⟨_, .value num, Op.encoding?_of, by simp, rfl⟩,
    ⟨_, .none, Op.encoding?_of, by simp, rfl⟩, ⟨_, .value den, Op.encoding?_of, by simp, rfl⟩,
    ⟨_, _, Op.encoding?_of, by simp, hencode⟩, ⟨_, .value den, Op.encoding?_of, by simp, rfl⟩,
    ⟨_, .value num, Op.encoding?_of, by simp, rfl⟩, ⟨_, .none, Op.encoding?_of, by simp, rfl⟩,
    ⟨_, _, Op.encoding?_of, by simp, hencode'⟩, ⟨_, .none, Op.encoding?_of, by simp, rfl⟩,
    List.forall_mem_nil _⟩

/-- A division leaves the quotient in place of the numerator and the remainder in A, when the
numerator is a cell outside of its code. Without a denominator it ends as well. -/
theorem divide_divides {β : Type} [Bus β] [Storage β] (s : Site) (num den : UInt16)
    (m : Machine β) (h : s.Holds (halting (divide s.start num den)) m.bus)
    (hpc : m.regs.pc = s.addr s.start.position) (hne : num ≠ den)
    (hcell : Storage.Cell m.bus num)
    (hapart : ∀ i, s.start.position ≤ i →
      i < (s.stop (halting (divide s.start num den))).position → num ≠ s.addr i) :
    ∃ steps mid, Reaches steps (s.addr (s.start.position + 22)) m mid ∧
      (Bus.peek m.bus den ≠ 0 →
        Bus.peek mid.bus num = Bus.peek m.bus num / Bus.peek m.bus den ∧
          mid.regs.a = Bus.peek m.bus num % Bus.peek m.bus den) ∧
      (Bus.peek m.bus den = 0 →
        Bus.peek mid.bus num = 0xFF ∧ mid.regs.a = Bus.peek m.bus num) ∧
      mid.regs.x = 0 ∧ mid.regs.y = m.regs.y ∧ mid.regs.sp = m.regs.sp ∧
      ∀ a, a ≠ num → Bus.peek mid.bus a = Bus.peek m.bus a := by
  obtain ⟨skip, back, hskip, hback, hw⟩ := divide_workspace h (· = num)
    (by rintro a rfl; exact hcell) (fun i hfrom hto hi => hapart i hfrom hto hi.symm)
  obtain ⟨steps, mid, hreaches, ha, hq, hframe, hkeep⟩ := divide_reaches hw hskip hback hne.symm
    (by rw [hpc, Site.addr_add, Nat.add_zero])
  rw [Site.addr_add] at hreaches
  obtain ⟨hx, hy, hsp⟩ : mid.regs.x = 0 ∧ mid.regs.y = m.regs.y ∧ mid.regs.sp = m.regs.sp := by
    simpa [Registers.frame] using hframe
  refine ⟨steps, mid, hreaches, fun hd => ?_, fun hd => ?_, hx, hy, hsp, hkeep⟩
  · have hpos : (Bus.peek m.bus den).toNat ≠ 0 := fun hz => hd (UInt8.toNat_inj.1 hz)
    rw [if_neg hpos] at hq
    exact ⟨UInt8.toNat_inj.1 (by rw [hq, UInt8.toNat_div]),
      UInt8.toNat_inj.1 (by rw [ha, UInt8.toNat_mod])⟩
  · have hzero : (Bus.peek m.bus den).toNat = 0 := congrArg UInt8.toNat hd
    rw [if_pos hzero] at hq
    rw [hzero, Nat.mod_zero] at ha
    exact ⟨UInt8.toNat_inj.1 hq, UInt8.toNat_inj.1 ha⟩

def divideSite : Site :=
  ⟨23, [.setOrigin 0x8000], []⟩

def divideImage : Array UInt8 :=
  #[0xA9, 0x00, 0xA2, 0x08, 0x0E, 0x10, 0x00, 0x2A, 0xCD, 0x11, 0x00, 0x90, 0x03, 0xED, 0x11, 0x00,
    0x2E, 0x10, 0x00, 0xCA, 0xD0, 0xF1, 0x00]

def divideRam : Array UInt8 :=
  Array.replicate 0x10 0 ++ #[100, 7]

theorem divide_divides_hundred :
    ∃ steps mid, Reaches steps 0x8016 ⟨.atReset 0x8000, board divideRam divideImage⟩ mid ∧
      Bus.peek mid.bus 0x10 = 14 ∧ mid.regs.a = 2 := by
  have hstop : (divideSite.stop (halting (divide divideSite.start 0x10 0x11))).position = 23 := by
    decide +kernel
  have hbuild : (divideSite.final (halting (divide divideSite.start 0x10 0x11))).build false =
      .ok divideImage := by decide +kernel
  have hholds : divideSite.Holds (halting (divide divideSite.start 0x10 0x11))
      (board divideRam divideImage) :=
    Site.holds_of_shows (by decide +kernel) (by decide +kernel)
      (fun u hu => absurd hu List.not_mem_nil) hbuild (by rw [hstop]; decide)
      (board_shows (by decide) (by decide))
  have hapart : ∀ i < 23, (0x10 : UInt16) ≠ divideSite.addr i := by decide +kernel
  obtain ⟨steps, mid, hreaches, hdivides, -⟩ := divide_divides divideSite 0x10 0x11
    ⟨.atReset 0x8000, board divideRam divideImage⟩ hholds (by decide +kernel) (by decide)
    (board_cell (by decide) (by decide)) (fun i _ hi => hapart i (hstop ▸ hi))
  have hnum : Bus.peek (board divideRam divideImage) 0x10 = 100 := by decide +kernel
  have hden : Bus.peek (board divideRam divideImage) 0x11 = 7 := by decide +kernel
  rw [hnum, hden] at hdivides
  obtain ⟨hquotient, hremainder⟩ := hdivides (by decide)
  exact ⟨steps, mid, hreaches, hquotient, hremainder⟩

end M6502.Snippet
