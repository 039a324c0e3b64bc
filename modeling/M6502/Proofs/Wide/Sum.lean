import M6502.Proofs.Bus.Loading
import M6502.Proofs.Processor.StraightLine
import M6502.Proofs.Wide.Number

/-!
# Sums and differences of several bytes

Code that adds or subtracts byte by byte, the lowest first, with a load, the
operation and a store for each. The carry and the overflow survive the loads
and the stores in between, so that after `i` rounds the result has its first
`i` bytes in place and the carry into the next of them is set.
-/

set_option autoImplicit false

namespace M6502

/-- The `n` bytes at `start` are those at `other`, or lie beside them. -/
def SameOrApart (n : Nat) (start other : UInt16) : Prop :=
  start = other ∨ ∀ i < n, ∀ j < n, start + UInt16.ofNat i ≠ other + UInt16.ofNat j

/-- A byte that is read before the result reaches it is the one from before. -/
theorem placed_ahead {mem : UInt16 → UInt8} {start other : UInt16} {b : Nat → UInt8} {n i : Nat}
    (h : SameOrApart n start other) (hi : i < n) (hn : n ≤ 0x10000) :
    placed mem start b i (other + UInt16.ofNat i) = mem (other + UInt16.ofNat i) := by
  refine if_neg fun hlt => ?_
  rcases h with rfl | hapart
  · rw [(toNat_sub_eq_iff (by omega)).2 rfl] at hlt
    exact Nat.lt_irrefl i hlt
  · refine hapart _ (Nat.lt_trans hlt hi) i hi ?_
    exact ((toNat_sub_eq_iff (by omega)).1 rfl).symm

def bytesAt (peek : UInt16 → UInt8) (addr : UInt16) (i : Nat) : UInt8 :=
  peek (addr + UInt16.ofNat i)

def numberAt (peek : UInt16 → UInt8) (addr : UInt16) (n : Nat) : Nat :=
  number (bytesAt peek addr) n

theorem numberAt_placed {mem : UInt16 → UInt8} {start : UInt16} {b : Nat → UInt8} {n : Nat}
    (hn : n ≤ 0x10000) : numberAt (placed mem start b n) start n = number b n :=
  number_congr fun _ hi => placed_at hi hn

theorem numberAt_of_shows {β : Type} [Bus β] {bus : β} {addr : UInt16} {bytes : List UInt8}
    {n : Nat} (h : Bus.Shows bus addr bytes) (hn : bytes.length = n) :
    numberAt (Bus.peek bus) addr n = number (fun i => bytes.getD i 0) n := by
  subst hn
  refine number_congr fun i hi => ?_
  rw [List.getD_eq_getElem?_getD, Bus.shows_iff.1 h i hi]
  rfl

inductive Wide where
  | sum | difference
  deriving DecidableEq, Repr

namespace Wide

open StraightLine

def opening : Wide → Encoding
  | .sum => .of .clc .implied
  | .difference => .of .sec .implied

theorem adc_absolute : (Encoding.ofParts? .adc .absolute).isSome = true := by decide

theorem sbc_absolute : (Encoding.ofParts? .sbc .absolute).isSome = true := by decide

theorem lda_absolute : (Encoding.ofParts? .lda .absolute).isSome = true := by decide

theorem sta_absolute : (Encoding.ofParts? .sta .absolute).isSome = true := by decide

def operation : Wide → Encoding
  | .sum => .of .adc .absolute adc_absolute
  | .difference => .of .sbc .absolute sbc_absolute

def round (w : Wide) (a b c : UInt16) (i : Nat) : List (Encoding × UInt16) :=
  [(.of .lda .absolute lda_absolute, a + UInt16.ofNat i), (w.operation, b + UInt16.ofNat i),
    (.of .sta .absolute sta_absolute, c + UInt16.ofNat i)]

def code (w : Wide) (a b c : UInt16) (n : Nat) : List (Encoding × UInt16) :=
  (w.opening, 0) :: (List.range n).flatMap (w.round a b c)

def carry : Wide → Bool
  | .sum => false
  | .difference => true

def addend : Wide → UInt8 → UInt8
  | .sum, v => v
  | .difference, v => ~~~v

theorem code_succ (w : Wide) (a b c : UInt16) (n : Nat) :
    w.code a b c (n + 1) = w.code a b c n ++ w.round a b c n := by
  rw [code, code, List.range_succ, List.flatMap_append, List.flatMap_singleton, List.cons_append]

theorem length_code (w : Wide) (a b c : UInt16) (n : Nat) :
    (w.code a b c n).length = 1 + 3 * n := by
  induction n with
  | zero => rfl
  | succ n ih =>
    rw [code_succ, List.length_append, ih]
    exact Nat.add_assoc ..

theorem plain_round (w : Wide) (a b c : UInt16) {n i : Nat} (hi : i < n) :
    ∀ e ∈ w.round a b c i, Plain (fun addr => ∃ i < n, addr = c + UInt16.ofNat i) e := by
  have hoperation : Plain (fun addr => ∃ i < n, addr = c + UInt16.ofNat i)
      (w.operation, b + UInt16.ofNat i) := by
    cases w <;> exact .of rfl (by decide) fun _ _ => List.forall_mem_nil _
  simp only [round, List.forall_mem_cons]
  refine ⟨.of rfl (by decide) fun _ _ => List.forall_mem_nil _, hoperation,
    .of rfl (by decide) fun _ _ => List.forall_mem_singleton.2 ⟨i, hi, rfl⟩, List.forall_mem_nil _⟩

theorem plain_code (w : Wide) (a b c : UInt16) (n : Nat) :
    ∀ e ∈ w.code a b c n, Plain (fun addr => ∃ i < n, addr = c + UInt16.ofNat i) e := by
  refine List.forall_mem_cons.2 ⟨?_, fun e he => ?_⟩
  · cases w <;> exact .of rfl (by decide) fun _ _ => List.forall_mem_nil _
  · obtain ⟨i, hi, he⟩ := List.mem_flatMap.1 he
    exact w.plain_round a b c (List.mem_range.1 hi) e he

theorem follow_round (w : Wide) (a b c : UInt16) (i : Nat) (s : State) :
    let r := addWithCarry (s.mem (a + UInt16.ofNat i)) (w.addend (s.mem (b + UInt16.ofNat i)))
      s.regs.status.carry
    (s.follow (w.round a b c i)).mem = Function.update s.mem (c + UInt16.ofNat i) r.value ∧
      (s.follow (w.round a b c i)).regs.status.carry = r.carry ∧
      (s.follow (w.round a b c i)).regs.status.overflow = r.overflow := by
  cases w <;>
    simp only [round, operation, State.follow, List.foldl_cons, List.foldl_nil, State.take,
      Encoding.outcome, Encoding.mnemonic_of, Encoding.mode_of] <;>
    exact ⟨rfl, rfl, rfl⟩

structure Carried (w : Wide) (x y : Nat → UInt8) (c : UInt16) (before : UInt16 → UInt8)
    (i : Nat) (s : State) : Prop where
  mem_eq : s.mem = placed before c (fun k => (sumAt x y w.carry k).value) i
  carry_eq : s.regs.status.carry = carryInto x y w.carry i
  overflow_eq : ∀ k, i = k + 1 → s.regs.status.overflow = (sumAt x y w.carry k).overflow

theorem carried (w : Wide) {a b c : UInt16} {n : Nat} (ha : SameOrApart n c a)
    (hb : SameOrApart n c b) (hn : n ≤ 0x10000) (s : State) {i : Nat} (hi : i ≤ n) :
    Carried w (bytesAt s.mem a) (fun k => w.addend (bytesAt s.mem b k)) c s.mem i
      (s.follow (w.code a b c i)) := by
  induction i with
  | zero =>
    refine ⟨?_, ?_, fun k hk => absurd hk (Nat.succ_ne_zero k).symm⟩ <;> cases w <;>
      simp only [code, opening, List.range_zero, List.flatMap_nil, State.follow, List.foldl_cons,
        List.foldl_nil, State.take, Encoding.outcome, Encoding.mnemonic_of, Encoding.mode_of] <;>
      rfl
  | succ i ih =>
    have h := ih (Nat.le_of_succ_le hi)
    obtain ⟨hmem, hcarry, hoverflow⟩ := w.follow_round a b c i (s.follow (w.code a b c i))
    rw [← State.follow_append, ← code_succ, h.carry_eq, h.mem_eq, placed_ahead ha hi hn,
      placed_ahead hb hi hn] at hmem hcarry hoverflow
    refine ⟨?_, hcarry, ?_⟩
    · rw [hmem]
      exact placed_succ (by omega)
    · rintro k ⟨⟩
      exact hoverflow

def exact : Wide → Int → Int → Int
  | .sum, u, v => u + v
  | .difference, u, v => u - v

def Carries (n u v : Nat) : Wide → Prop
  | .sum => 256 ^ n ≤ u + v
  | .difference => v ≤ u

instance (n u v : Nat) : (w : Wide) → Decidable (w.Carries n u v)
  | .sum => inferInstanceAs (Decidable (_ ≤ _))
  | .difference => inferInstanceAs (Decidable (_ ≤ _))

section Result

variable (w : Wide) (x y : Nat → UInt8) (n : Nat)

theorem number_result :
    (number (fun i => (sumAt x (fun k => w.addend (y k)) w.carry i).value) n : Int) =
      w.exact (number x n) (number y n) % (256 ^ n : Nat) := by
  rw [number_sum_mod]
  cases w with
  | sum => rfl
  | difference =>
    have hcomplement := number_complement y n
    have hsum : ((number x n + number (fun i => ~~~y i) n + 1 : Nat) : Int) =
        number x n - number y n + (256 ^ n : Nat) := by omega
    show (((number x n + number (fun i => ~~~y i) n + 1) % 256 ^ n : Nat) : Int) = _
    rw [Int.natCast_emod, hsum, Int.add_emod_right]
    rfl

theorem carries_iff : carryInto x (fun k => w.addend (y k)) w.carry n = true ↔
    w.Carries n (number x n) (number y n) := by
  rw [carry_iff]
  cases w with
  | sum => rfl
  | difference =>
    have hcomplement := number_complement y n
    show 256 ^ n ≤ number x n + number (fun i => ~~~y i) n + 1 ↔ number y n ≤ number x n
    omega

theorem overflow_result : (sumAt x (fun k => w.addend (y k)) w.carry n).overflow = true ↔
    ¬ Fits (n + 1)
      (w.exact (signed (n + 1) (number x (n + 1))) (signed (n + 1) (number y (n + 1)))) := by
  rw [overflow_iff]
  cases w with
  | sum =>
    show ¬ Fits (n + 1) (_ + 0) ↔ _
    rw [Int.add_zero]
    rfl
  | difference =>
    have hcomplement := signed_complement y n
    have hsum : signed (n + 1) (number x (n + 1)) +
        signed (n + 1) (number (fun i => ~~~y i) (n + 1)) + 1 =
          signed (n + 1) (number x (n + 1)) - signed (n + 1) (number y (n + 1)) := by omega
    show ¬ Fits (n + 1) (_ + signed (n + 1) (number (fun i => ~~~y i) (n + 1)) + 1) ↔ _
    rw [hsum]
    rfl

end Result

structure Holds (w : Wide) (c : UInt16) (n u v : Nat) (m : Machine FlatMemory) : Prop where
  number_eq : (numberAt (Bus.peek m.bus) c n : Int) = w.exact u v % (256 ^ n : Nat)
  carry_iff : m.regs.status.carry = true ↔ w.Carries n u v
  overflow_iff : m.regs.status.overflow = true ↔ ¬ Fits n (w.exact (signed n u) (signed n v))

/-- Sums and differences of any number of bytes are exact, whatever the registers and flags were
before. The result may take the place of an operand. -/
theorem code_exact (w : Wide) {n : Nat} (hn : 0 < n) {mem : FlatMemory} (hfull : mem.Full)
    (regs : Registers) {a b c : UInt16} (ha : SameOrApart n c a) (hb : SameOrApart n c b)
    (hcode : Bus.Shows mem regs.pc (bytes (w.code a b c n)))
    (hapart : ∀ i < n, ∀ j < (bytes (w.code a b c n)).length,
      c + UInt16.ofNat i ≠ regs.pc + UInt16.ofNat j) :
    ∃ next, Runs (1 + 3 * n) ⟨regs, mem⟩ next ∧
      next.regs.pc = regs.pc + UInt16.ofNat (bytes (w.code a b c n)).length ∧
      w.Holds c n (numberAt (Bus.peek mem) a n) (numberAt (Bus.peek mem) b n) next := by
  -- a result that fills the address space would lie in the code
  have hsize : n ≤ 0x10000 := by
    refine Nat.le_of_not_lt fun hlt => hapart (regs.pc - c).toNat ?_ 0 ?_ ?_
    · exact Nat.lt_trans (regs.pc - c).toNat_lt hlt
    · cases w <;> exact Nat.succ_pos _
    · rw [UInt16.ofNat_toNat, UInt16.add_comm, UInt16.sub_add_cancel]
      exact (UInt16.add_zero _).symm
  obtain ⟨next, hruns, hstate, hpc, -⟩ := passes (m := ⟨regs, mem⟩) (w.plain_code a b c n) hcode
    (fun addr _ => hfull.cell addr) (by
      rintro j hj ⟨i, hi, heq⟩
      exact hapart i hi j hj heq.symm)
  have h := w.carried ha hb hsize (.of ⟨regs, mem⟩) (Nat.le_refl n)
  rw [← hstate] at h
  rw [length_code] at hruns
  refine ⟨next, hruns, hpc, ?_, ?_, ?_⟩
  · have hmem : Bus.peek next.bus = _ := h.mem_eq
    rw [hmem, numberAt_placed hsize]
    exact w.number_result _ _ n
  · have hcarry : next.regs.status.carry = _ := h.carry_eq
    rw [hcarry]
    exact w.carries_iff _ _ n
  · obtain ⟨k, rfl⟩ := Nat.exists_eq_add_of_le' hn
    have hoverflow : next.regs.status.overflow = _ := h.overflow_eq k rfl
    rw [hoverflow]
    exact w.overflow_result _ _ k

def sumImage : List UInt8 :=
  [0xFF, 0x7F] ++ ([0x01, 0x00] ++ ([0x00, 0x00] ++ bytes (sum.code 0x0200 0x0202 0x0204 2)))

def sumMemory : FlatMemory :=
  (FlatMemory.cleared 0x10000 0).load 0x0200 sumImage.toArray

theorem full_sumMemory : sumMemory.Full :=
  FlatMemory.full_cleared.load 0x0200 sumImage.toArray

theorem shows_sumMemory : Bus.Shows sumMemory 0x0200 sumImage := by
  have hsize : sumImage.toArray.size = 25 := by decide
  refine FlatMemory.shows_load (by decide) ?_ ?_
  · rw [FlatMemory.cleared, Array.size_replicate, hsize]
    decide
  · rw [hsize]
    decide

/-- A sum of positive numbers that runs into the sign, with the decimal flag set. -/
theorem code_exact_sum :
    ∃ next, Runs 7
        ⟨{ Registers.atReset 0x0206 with status := { Status.clear with decimal := true } },
          sumMemory⟩ next ∧
      numberAt (Bus.peek next.bus) 0x0204 2 = 0x8000 ∧
      ¬ next.regs.status.carry = true ∧ next.regs.status.overflow = true := by
  obtain ⟨ha, hrest⟩ := Bus.shows_append.1 shows_sumMemory
  obtain ⟨hb, hrest⟩ := Bus.shows_append.1 hrest
  obtain ⟨-, hcode⟩ := Bus.shows_append.1 hrest
  have hapart : ∀ i < 2, ∀ j < (bytes (sum.code 0x0200 0x0202 0x0204 2)).length,
      (0x0204 : UInt16) + UInt16.ofNat i ≠ 0x0206 + UInt16.ofNat j := by decide
  obtain ⟨next, hruns, -, h⟩ := sum.code_exact (by decide) full_sumMemory
    { Registers.atReset 0x0206 with status := { Status.clear with decimal := true } }
    (.inr (by decide)) (.inr (by decide)) hcode hapart
  have hleft : numberAt (Bus.peek sumMemory) 0x0200 2 =
      number (fun i => [0xFF, 0x7F].getD i 0) 2 := numberAt_of_shows ha rfl
  have hright : numberAt (Bus.peek sumMemory) 0x0202 2 =
      number (fun i => [0x01, 0x00].getD i 0) 2 := numberAt_of_shows hb rfl
  rw [hleft, hright] at h
  exact ⟨next, hruns, Int.ofNat_inj.1 h.number_eq, mt h.carry_iff.1 (by decide),
    h.overflow_iff.2 (by decide)⟩

end Wide

end M6502
