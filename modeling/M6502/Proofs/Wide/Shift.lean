import M6502.Proofs.Wide.Sum

/-!
# Shifts of several bytes

A shift of the first byte and rotations of the others, each of which hands on
a bit to the next, shift the number of all bytes by one place. To the left the
bytes are taken from the lowest on, and a byte that is rotated is the sum of
the byte with itself; to the right they are taken from the highest on. What
left the number at one end comes back when the bytes are rotated the other way.
-/

set_option autoImplicit false

namespace M6502

open StraightLine

/-- The bytes of a number are those of no other number. -/
theorem number_injective {b d : Nat → UInt8} {n : Nat} (h : number b n = number d n) :
    ∀ i < n, b i = d i := by
  induction n with
  | zero => exact fun i hi => absurd hi (Nat.not_lt_zero i)
  | succ n ih =>
    rw [number, number] at h
    have hb := number_lt b n
    have hd := number_lt d n
    have hlow := congrArg (· % 256 ^ n) h
    have hhigh := congrArg (· / 256 ^ n) h
    simp only [Nat.add_mul_mod_self_left, Nat.mod_eq_of_lt hb, Nat.mod_eq_of_lt hd] at hlow
    simp only [Nat.add_mul_div_left _ _ (Nat.zero_lt_of_lt hb), Nat.div_eq_of_lt hb,
      Nat.div_eq_of_lt hd, Nat.zero_add] at hhigh
    intro i hi
    rcases Nat.lt_succ_iff_lt_or_eq.1 hi with hi | rfl
    · exact ih hlow i hi
    · exact UInt8.toNat_inj.1 hhigh

theorem testBit_top {n v : Nat} (hn : 0 < n) (hv : v < 256 ^ n) :
    v.testBit (8 * n - 1) = decide (256 ^ n ≤ 2 * v) := by
  have hsize : 256 ^ n = 2 * 2 ^ (8 * n - 1) := by
    rw [← Nat.pow_succ', Nat.succ_eq_add_one, Nat.sub_add_cancel (by omega), Nat.pow_mul]
  rw [hsize] at hv ⊢
  have hlt : v / 2 ^ (8 * n - 1) < 2 := by
    rw [Nat.div_lt_iff_lt_mul (Nat.two_pow_pos _)]
    exact hv
  have hle : 1 ≤ v / 2 ^ (8 * n - 1) ↔ 2 ^ (8 * n - 1) ≤ v := by
    rw [Nat.le_div_iff_mul_le (Nat.two_pow_pos _), Nat.one_mul]
  rw [Nat.testBit_eq_decide_div_mod_eq, decide_eq_decide]
  generalize v / 2 ^ (8 * n - 1) = q at hlt hle ⊢
  omega

def lowBit (v : UInt8) : Bool :=
  v.toNat % 2 == 1

theorem toNat_lowBit (v : UInt8) : (lowBit v).toNat = v.toNat % 2 := by
  rw [lowBit]
  rcases Nat.mod_two_eq_zero_or_one v.toNat with h | h <;> rw [h] <;> rfl

def carryFrom (b : Nat → UInt8) (c : Bool) (n i : Nat) : Bool :=
  if i = n then c else lowBit (b i)

def halfAt (b : Nat → UInt8) (c : Bool) (n i : Nat) : UInt8 :=
  (Modification.rotateRight.apply (carryFrom b c n (i + 1)) (b i)).1

/-- The bits below the last byte are those of a number without it. -/
theorem carryFrom_succ {b d : Nat → UInt8} (c : Bool) {n i : Nat} (h : ∀ i < n, d i = b i)
    (hi : i ≤ n) : carryFrom d (lowBit (b n)) n i = carryFrom b c (n + 1) i := by
  rw [carryFrom, carryFrom, if_neg (Nat.ne_of_lt (Nat.lt_succ_of_le hi))]
  split
  · rename_i heq
    rw [heq]
  · rename_i hne
    rw [h i (Nat.lt_of_le_of_ne hi hne)]

theorem halfAt_succ {b d : Nat → UInt8} (c : Bool) {n i : Nat} (h : ∀ i < n, d i = b i)
    (hi : i < n) : halfAt d (lowBit (b n)) n i = halfAt b c (n + 1) i := by
  rw [halfAt, halfAt, carryFrom_succ c h hi, h i hi]

theorem rotateRight_exact (c : Bool) (v : UInt8) :
    2 * (Modification.rotateRight.apply c v).1.toNat + (lowBit v).toNat =
      v.toNat + 256 * c.toNat := by
  have hv := v.toNat_lt
  have hc := c.toNat_le
  rw [Modification.apply, UInt8.toNat_ofNat', toNat_lowBit]
  omega

theorem number_half (b : Nat → UInt8) (c : Bool) (n : Nat) :
    2 * number (halfAt b c n) n + (carryFrom b c n 0).toNat =
      number b n + 256 ^ n * c.toNat := by
  induction n generalizing c with
  | zero =>
    rw [Nat.pow_zero, Nat.one_mul]
    rfl
  | succ n ih =>
    have hrest := ih (lowBit (b n))
    have hlast := congrArg (256 ^ n * ·) (rotateRight_exact c (b n))
    have htop : halfAt b c (n + 1) n = (Modification.rotateRight.apply c (b n)).1 := by
      rw [halfAt, carryFrom, if_pos rfl]
    have hfront : number (halfAt b (lowBit (b n)) n) n = number (halfAt b c (n + 1)) n :=
      number_congr fun i hi => halfAt_succ c (fun _ _ => rfl) hi
    rw [carryFrom_succ c (fun _ _ => rfl) (Nat.zero_le n), hfront] at hrest
    simp only [Nat.mul_add, Nat.mul_left_comm _ 2, Nat.mul_left_comm _ 256] at hlast
    rw [number, number, htop, Nat.pow_succ, Nat.mul_assoc, Nat.mul_left_comm _ 256]
    omega

/-- Halved again, a double gives the number that it came from, byte by byte. -/
theorem half_back {b d : Nat → UInt8} {c : Bool} {n : Nat}
    (h : number d n + 256 ^ n * c.toNat = 2 * number b n) :
    (∀ i < n, halfAt d c n i = b i) ∧ carryFrom d c n 0 = false := by
  have hhalf := number_half d c n
  have hcarry := (carryFrom d c n 0).toNat_le
  rw [h] at hhalf
  constructor
  · exact number_injective (by omega)
  · exact Bool.toNat_eq_zero.1 (by omega)

theorem rotateLeft_apply (c : Bool) (v : UInt8) :
    Modification.rotateLeft.apply c v =
      ((addWithCarry v v c).value, (addWithCarry v v c).carry) := by
  have hc := c.toNat_le
  have htop : isNegative v = decide (255 < v.toNat + v.toNat + c.toNat) := by
    rw [Bool.eq_iff_iff, isNegative_iff, decide_eq_true_iff]
    omega
  rw [Modification.apply, addWithCarry, Nat.two_mul, htop]

namespace Modification

def sweep (f : Modification) (cells : (UInt16 → UInt8) × Bool) (addrs : List UInt16) :
    (UInt16 → UInt8) × Bool :=
  addrs.foldl (fun x addr =>
    (Function.update x.1 addr (f.apply x.2 (x.1 addr)).1, (f.apply x.2 (x.1 addr)).2)) cells

end Modification

def upward (a : UInt16) (n : Nat) : List UInt16 :=
  (List.range n).map fun i => a + UInt16.ofNat i

def downward (a : UInt16) (n : Nat) : List UInt16 :=
  (upward a n).reverse

theorem upward_succ (a : UInt16) (n : Nat) :
    upward a (n + 1) = upward a n ++ [a + UInt16.ofNat n] := by
  rw [upward, upward, List.range_succ, List.map_append, List.map_singleton]

theorem downward_succ (a : UInt16) (n : Nat) :
    downward a (n + 1) = (a + UInt16.ofNat n) :: downward a n := by
  rw [downward, upward_succ, List.reverse_append]
  rfl

theorem mem_upward {a addr : UInt16} {n : Nat} :
    addr ∈ upward a n ↔ ∃ i < n, addr = a + UInt16.ofNat i := by
  simp only [upward, List.mem_map, List.mem_range, eq_comm]

theorem upward_ne_nil (a : UInt16) {n : Nat} (hn : 0 < n) : upward a n ≠ [] :=
  List.ne_nil_of_mem (mem_upward.2 ⟨0, hn, rfl⟩)

theorem downward_ne_nil (a : UInt16) {n : Nat} (hn : 0 < n) : downward a n ≠ [] :=
  List.reverse_ne_nil_iff.2 (upward_ne_nil a hn)

section Sweeps

variable {mem : UInt16 → UInt8} {a : UInt16} {n : Nat}

theorem placed_zero (b : Nat → UInt8) : placed mem a b 0 = mem :=
  funext fun _ => if_neg (Nat.not_lt_zero _)

theorem placed_congr {b d : Nat → UInt8} (h : ∀ i < n, b i = d i) :
    placed mem a b n = placed mem a d n := by
  funext addr
  rw [placed, placed]
  split
  · rename_i hlt
    exact h _ hlt
  · rfl

/-- A byte behind those that are put in may be there before. -/
theorem placed_update {b : Nat → UInt8} (hn : n < 0x10000) (v : UInt8) :
    placed (Function.update mem (a + UInt16.ofNat n) v) a b n =
      Function.update (placed mem a b n) (a + UInt16.ofNat n) v := by
  funext addr
  rw [placed, Function.update_apply, Function.update_apply, placed]
  by_cases heq : addr = a + UInt16.ofNat n
  · rw [if_pos heq, if_pos heq, (toNat_sub_eq_iff hn).2 heq, if_neg (Nat.lt_irrefl n)]
  · rw [if_neg heq, if_neg heq]

theorem placed_self {b : Nat → UInt8} (h : ∀ i < n, b i = bytesAt mem a i) :
    placed mem a b n = mem := by
  funext addr
  rw [placed]
  split
  · rename_i hlt
    rw [h _ hlt, bytesAt, UInt16.ofNat_toNat, UInt16.add_comm, UInt16.sub_add_cancel]
  · rfl

theorem placed_placed {b d : Nat → UInt8} :
    placed (placed mem a b n) a d n = placed mem a d n := by
  funext addr
  rw [placed]
  split
  · rename_i hlt
    rw [placed, if_pos hlt]
  · rename_i hge
    rw [placed, placed, if_neg hge, if_neg hge]

theorem sweep_upward (hn : n ≤ 0x10000) (c : Bool) :
    Modification.rotateLeft.sweep (mem, c) (upward a n) =
      (placed mem a (fun i => (sumAt (bytesAt mem a) (bytesAt mem a) c i).value) n,
        carryInto (bytesAt mem a) (bytesAt mem a) c n) := by
  induction n with
  | zero =>
    rw [placed_zero]
    rfl
  | succ n ih =>
    have hbyte := @placed_ahead mem a a
      (fun i => (sumAt (bytesAt mem a) (bytesAt mem a) c i).value) (n + 1) n (.inl rfl)
      (Nat.lt_succ_self n) hn
    rw [upward_succ, Modification.sweep, List.foldl_append]
    rw [Modification.sweep] at ih
    rw [ih (Nat.le_of_succ_le hn), List.foldl_cons, List.foldl_nil]
    simp only [hbyte, rotateLeft_apply]
    exact Prod.ext (placed_succ (by omega)) rfl

theorem sweep_downward (hn : n ≤ 0x10000) (c : Bool) :
    Modification.rotateRight.sweep (mem, c) (downward a n) =
      (placed mem a (halfAt (bytesAt mem a) c n) n, carryFrom (bytesAt mem a) c n 0) := by
  induction n generalizing mem c with
  | zero =>
    rw [placed_zero]
    rfl
  | succ n ih =>
    have hlt : n < 0x10000 := hn
    have hfront (v : UInt8) (i : Nat) (hi : i < n) :
        bytesAt (Function.update mem (a + UInt16.ofNat n) v) a i = bytesAt mem a i := by
      refine Function.update_of_ne (fun heq => ?_) _ _
      have hplace : (a + UInt16.ofNat i - a).toNat = n := (toNat_sub_eq_iff hlt).2 heq
      rw [(toNat_sub_eq_iff (Nat.lt_trans hi hlt)).2 rfl] at hplace
      exact Nat.ne_of_lt hi hplace
    have htop : halfAt (bytesAt mem a) c (n + 1) n =
        (Modification.rotateRight.apply c (mem (a + UInt16.ofNat n))).1 := by
      rw [halfAt, carryFrom, if_pos rfl]
      rfl
    have hrest := @ih (Function.update mem (a + UInt16.ofNat n)
      (Modification.rotateRight.apply c (mem (a + UInt16.ofNat n))).1) (Nat.le_of_succ_le hn)
      (lowBit (bytesAt mem a n))
    rw [downward_succ, Modification.sweep, List.foldl_cons]
    rw [Modification.sweep] at hrest
    refine hrest.trans (Prod.ext ?_ ?_)
    · show placed _ a _ n = placed mem a _ (n + 1)
      rw [placed_congr fun i hi => halfAt_succ c (hfront _) hi, placed_update hlt, ← htop,
        placed_succ hlt]
    · exact carryFrom_succ c (hfront _) (Nat.zero_le n)

end Sweeps

namespace Modification

def mnemonic : Modification → Mnemonic
  | .shiftLeft => .asl
  | .shiftRight => .lsr
  | .rotateLeft => .rol
  | .rotateRight => .ror
  | .increment => .inc
  | .decrement => .dec

theorem action_mnemonic (f : Modification) : f.mnemonic.action = .modify f := by
  cases f <;> rfl

theorem has_absolute (f : Modification) :
    (Encoding.ofParts? f.mnemonic .absolute).isSome = true := by
  cases f <;> decide

def absolute (f : Modification) : Encoding :=
  .of f.mnemonic .absolute f.has_absolute

theorem outcome_absolute (f : Modification) (regs : Registers) (mem : UInt16 → UInt8)
    (v : UInt16) : f.absolute.outcome regs mem v =
      (Action.modify f).outcome .absolute regs.opened mem v := by
  rw [Encoding.outcome, absolute, Encoding.mnemonic_of, Encoding.mode_of, action_mnemonic]

def each (f : Modification) (addrs : List UInt16) : List (Encoding × UInt16) :=
  addrs.map fun addr => (f.absolute, addr)

variable {own : UInt16 → Prop} {addrs : List UInt16}

theorem plain_absolute (f : Modification) {addr : UInt16} (h : own addr) :
    Plain own (f.absolute, addr) where
  sequential := by
    rw [absolute, Encoding.mnemonic_of]
    cases f <;> rfl
  running := by
    rw [absolute, Encoding.mnemonic_of]
    cases f <;> decide
  stores regs mem := by
    rw [outcome_absolute]
    exact List.forall_mem_singleton.2 h

theorem plain_each (f : Modification) (h : ∀ addr ∈ addrs, own addr) :
    ∀ c ∈ f.each addrs, Plain own c := by
  intro c hc
  obtain ⟨addr, ha, rfl⟩ := List.mem_map.1 hc
  exact f.plain_absolute (h addr ha)

end Modification

def StraightLine.State.cells (s : State) : (UInt16 → UInt8) × Bool :=
  (s.mem, s.regs.status.carry)

theorem cells_take (f : Modification) (addr : UInt16) (s : State) :
    (s.take (f.absolute, addr)).cells = f.sweep s.cells [addr] := by
  rw [State.take, State.cells, f.outcome_absolute]
  rfl

theorem cells_follow (f : Modification) (addrs : List UInt16) (s : State) :
    (s.follow (f.each addrs)).cells = f.sweep s.cells addrs := by
  induction addrs generalizing s with
  | nil => rfl
  | cons addr addrs ih =>
    have hrest := ih (s.take (f.absolute, addr))
    rw [cells_take] at hrest
    exact hrest

def opened (first rest : Modification) : List UInt16 → List (Encoding × UInt16)
  | [] => []
  | addr :: addrs => (first.absolute, addr) :: rest.each addrs

theorem opened_ne_nil (first rest : Modification) {addrs : List UInt16} (h : addrs ≠ []) :
    opened first rest addrs ≠ [] := by
  obtain ⟨addr, addrs, rfl⟩ := List.exists_cons_of_ne_nil h
  exact List.cons_ne_nil _ _

theorem plain_opened (first rest : Modification) {own : UInt16 → Prop} {addrs : List UInt16}
    (h : ∀ addr ∈ addrs, own addr) : ∀ c ∈ opened first rest addrs, Plain own c := by
  cases addrs with
  | nil => exact fun c hc => absurd hc List.not_mem_nil
  | cons addr addrs =>
    rw [List.forall_mem_cons] at h
    exact List.forall_mem_cons.2 ⟨first.plain_absolute h.1, rest.plain_each h.2⟩

/-- A shift is a rotation with a clear carry. -/
theorem cells_opened {first rest : Modification} (h : ∀ c v, first.apply c v = rest.apply false v)
    {addrs : List UInt16} (hne : addrs ≠ []) (s : State) :
    (s.follow (opened first rest addrs)).cells = rest.sweep (s.mem, false) addrs := by
  cases addrs with
  | nil => contradiction
  | cons addr addrs =>
    have hfirst : (s.take (first.absolute, addr)).cells = rest.sweep (s.mem, false) [addr] := by
      rw [cells_take]
      simp only [Modification.sweep, List.foldl_cons, List.foldl_nil, h]
      rfl
    have hrest := cells_follow rest addrs (s.take (first.absolute, addr))
    rw [hfirst] at hrest
    exact hrest

inductive Shift where
  | left | right | leftAndBack
  deriving DecidableEq, Repr

namespace Shift

def code : Shift → UInt16 → Nat → List (Encoding × UInt16)
  | .left, a, n => opened .shiftLeft .rotateLeft (upward a n)
  | .right, a, n => opened .shiftRight .rotateRight (downward a n)
  | .leftAndBack, a, n =>
    opened .shiftLeft .rotateLeft (upward a n) ++ Modification.rotateRight.each (downward a n)

theorem code_ne_nil (shift : Shift) (a : UInt16) {n : Nat} (hn : 0 < n) : shift.code a n ≠ [] := by
  cases shift with
  | left => exact opened_ne_nil _ _ (upward_ne_nil a hn)
  | right => exact opened_ne_nil _ _ (downward_ne_nil a hn)
  | leftAndBack =>
    exact List.append_ne_nil_of_left_ne_nil (opened_ne_nil _ _ (upward_ne_nil a hn)) _

def Holds (a : UInt16) (n : Nat) (before : UInt16 → UInt8) (after : (UInt16 → UInt8) × Bool) :
    Shift → Prop
  | .left =>
    numberAt after.1 a n = 2 * numberAt before a n % 256 ^ n ∧
      after.2 = (numberAt before a n).testBit (8 * n - 1)
  | .right =>
    numberAt after.1 a n = numberAt before a n / 2 ∧ after.2 = (numberAt before a n).testBit 0
  | .leftAndBack => after.1 = before ∧ after.2 = false

theorem plain_code (shift : Shift) (a : UInt16) (n : Nat) :
    ∀ c ∈ shift.code a n, Plain (fun addr => ∃ i < n, addr = a + UInt16.ofNat i) c := by
  have hup : ∀ addr ∈ upward a n, ∃ i < n, addr = a + UInt16.ofNat i :=
    fun _ => mem_upward.1
  have hdown : ∀ addr ∈ downward a n, ∃ i < n, addr = a + UInt16.ofNat i :=
    fun _ h => mem_upward.1 (List.mem_reverse.1 h)
  cases shift with
  | left => exact plain_opened _ _ hup
  | right => exact plain_opened _ _ hdown
  | leftAndBack =>
    exact List.forall_mem_append.2 ⟨plain_opened _ _ hup, Modification.plain_each _ hdown⟩

section Result

variable {a : UInt16} {n : Nat}

theorem cells_left (hn : 0 < n) (hsize : n ≤ 0x10000) (s : State) :
    (s.follow (left.code a n)).cells =
      (placed s.mem a (fun i => (sumAt (bytesAt s.mem a) (bytesAt s.mem a) false i).value) n,
        carryInto (bytesAt s.mem a) (bytesAt s.mem a) false n) :=
  (cells_opened (fun _ _ => rfl) (upward_ne_nil a hn) s).trans (sweep_upward hsize false)

theorem cells_right (hn : 0 < n) (hsize : n ≤ 0x10000) (s : State) :
    (s.follow (right.code a n)).cells =
      (placed s.mem a (halfAt (bytesAt s.mem a) false n) n,
        carryFrom (bytesAt s.mem a) false n 0) :=
  (cells_opened (fun _ _ => rfl) (downward_ne_nil a hn) s).trans (sweep_downward hsize false)

/-- The rotations to the right take back the bits that the shift let out. -/
theorem cells_leftAndBack (hn : 0 < n) (hsize : n ≤ 0x10000) (s : State) :
    (s.follow (leftAndBack.code a n)).cells = (s.mem, false) := by
  have hback := cells_follow .rotateRight (downward a n) (s.follow (left.code a n))
  have hdouble := number_sum (bytesAt s.mem a) (bytesAt s.mem a) false n
  rw [← @numberAt_placed s.mem a _ n hsize, Bool.toNat_false, Nat.add_zero,
    ← Nat.two_mul] at hdouble
  obtain ⟨hbytes, hcarry⟩ := half_back hdouble
  rw [cells_left hn hsize s, sweep_downward hsize, placed_placed, placed_self hbytes,
    hcarry] at hback
  rw [code, State.follow_append]
  exact hback

theorem holds_follow (shift : Shift) (hn : 0 < n) (hsize : n ≤ 0x10000) (s : State) :
    shift.Holds a n s.mem (s.follow (shift.code a n)).cells := by
  have hlt : numberAt s.mem a n < 256 ^ n := number_lt _ n
  cases shift with
  | left =>
    have hcarry := carry_iff (bytesAt s.mem a) (bytesAt s.mem a) false n
    rw [cells_left hn hsize s]
    constructor
    · rw [numberAt_placed hsize, number_sum_mod, ← Nat.two_mul]
      rfl
    · rw [testBit_top hn hlt, Bool.eq_iff_iff, decide_eq_true_iff, hcarry, ← Nat.two_mul]
      rfl
  | right =>
    have hhalf := number_half (bytesAt s.mem a) false n
    have hcarry := (carryFrom (bytesAt s.mem a) false n 0).toNat_le
    rw [Bool.toNat_false, Nat.mul_zero, Nat.add_zero] at hhalf
    rw [cells_right hn hsize s]
    constructor
    · rw [numberAt_placed hsize, numberAt]
      omega
    · rw [Nat.testBit_zero, numberAt, ← hhalf]
      cases carryFrom (bytesAt s.mem a) false n 0 <;> simp
  | leftAndBack =>
    rw [cells_leftAndBack hn hsize s]
    exact ⟨rfl, rfl⟩

end Result

/-- Bytes that are not in the code are fewer than there are addresses. -/
theorem size_of_apart {a pc : UInt16} {n k : Nat} (hk : 0 < k)
    (h : ∀ i < n, ∀ j < k, a + UInt16.ofNat i ≠ pc + UInt16.ofNat j) : n ≤ 0x10000 := by
  refine Nat.le_of_not_lt fun hlt => h (pc - a).toNat ?_ 0 hk ?_
  · exact Nat.lt_trans (pc - a).toNat_lt hlt
  · rw [UInt16.ofNat_toNat, UInt16.add_comm, UInt16.sub_add_cancel]
    exact (UInt16.add_zero _).symm

/-- Shifts of any number of bytes are exact, whatever the registers and flags were before, and what
is shifted out to the left can be taken back. No other byte changes. -/
theorem code_shifts (shift : Shift) {n : Nat} (hn : 0 < n) {mem : FlatMemory} (regs : Registers)
    {a : UInt16} (hcells : ∀ i < n, Storage.Cell mem (a + UInt16.ofNat i))
    (hcode : Bus.Shows mem regs.pc (bytes (shift.code a n)))
    (hapart : ∀ i < n, ∀ j < (bytes (shift.code a n)).length,
      a + UInt16.ofNat i ≠ regs.pc + UInt16.ofNat j) :
    ∃ next, Runs (shift.code a n).length ⟨regs, mem⟩ next ∧
      next.regs.pc = regs.pc + UInt16.ofNat (bytes (shift.code a n)).length ∧
      shift.Holds a n (Bus.peek mem) (Bus.peek next.bus, next.regs.status.carry) ∧
      ∀ addr, (∀ i < n, addr ≠ a + UInt16.ofNat i) →
        Bus.peek next.bus addr = Bus.peek mem addr := by
  have hplain := shift.plain_code a n
  have hsize : n ≤ 0x10000 := size_of_apart (length_bytes_pos (shift.code_ne_nil a hn)) hapart
  obtain ⟨next, hruns, hstate, hpc, -⟩ := passes (m := ⟨regs, mem⟩) hplain hcode
    (by rintro addr ⟨i, hi, rfl⟩; exact hcells i hi)
    (by rintro j hj ⟨i, hi, heq⟩; exact hapart i hi j hj heq.symm)
  have h := shift.holds_follow (a := a) hn hsize (.of ⟨regs, mem⟩)
  rw [← hstate] at h
  refine ⟨next, hruns, hpc, h, fun addr ha => ?_⟩
  have hmem := mem_follow hplain (.of ⟨regs, mem⟩) (fun ⟨i, hi, heq⟩ => ha i hi heq)
  rw [← hstate] at hmem
  exact hmem

def shiftImage : List UInt8 :=
  [0x81, 0xC0] ++ bytes (left.code 0x0200 2)

def shiftMemory : FlatMemory :=
  (FlatMemory.cleared 8 0x0200).load 0x0200 shiftImage.toArray

theorem shows_shiftMemory : Bus.Shows shiftMemory 0x0200 shiftImage :=
  FlatMemory.shows_load (by decide) (by decide) (by decide)

/-- The carry from before is not rotated in, and the top bit is rotated out. -/
theorem code_shifts_left :
    ∃ next, Runs 2
        ⟨{ Registers.atReset 0x0202 with status := { Status.clear with carry := true } },
          shiftMemory⟩ next ∧
      numberAt (Bus.peek next.bus) 0x0200 2 = 0x8102 ∧ next.regs.status.carry = true := by
  obtain ⟨hnumber, hcode⟩ := Bus.shows_append.1 shows_shiftMemory
  have hcells : ∀ i < 2, Storage.Cell shiftMemory (0x0200 + UInt16.ofNat i) :=
    fun i hi => ⟨i, by revert i; decide⟩
  obtain ⟨next, hruns, -, ⟨hdouble, hcarry⟩, -⟩ := left.code_shifts (by decide)
    { Registers.atReset 0x0202 with status := { Status.clear with carry := true } } hcells hcode
    (by decide)
  have hbefore : numberAt (Bus.peek shiftMemory) 0x0200 2 =
      number (fun i => [0x81, 0xC0].getD i 0) 2 := numberAt_of_shows hnumber rfl
  rw [hbefore] at hdouble hcarry
  exact ⟨next, hruns, hdouble, hcarry⟩

end Shift

end M6502
