import M6502.Proofs.Bus.Loading

/-!
# Loading and writing byte by byte

Bytes can be put into flat memory all at once or written one after the other,
where those that fall outside of the memory are refused. Both show the same
when the bytes begin in or behind the memory. Bytes that begin in front of it
are lost when they are loaded, also those that would reach into the memory.
-/

set_option autoImplicit false

namespace M6502

def Bus.writeEach {β : Type} [Bus β] (addr : UInt16) : List UInt8 → β → β
  | [], bus => bus
  | b :: bytes, bus => writeEach (addr + 1) bytes (Bus.write addr b bus).2

namespace FlatMemory

variable {mem : FlatMemory} {addr other : UInt16}

theorem index?_write (mem : FlatMemory) (addr : UInt16) (value : UInt8) :
    (Bus.write addr value mem).2.index? = mem.index? := by
  funext other
  simp only [Bus.write]
  split
  · simp only [index?, Array.size_setIfInBounds]
  · rfl

/-- A write shows at its address when there is a cell, and changes nothing else. -/
theorem get_write_snd (mem : FlatMemory) (addr : UInt16) (value : UInt8) (other : UInt16) :
    (Bus.write addr value mem).2.get other =
      if (mem.index? other).isSome ∧ other = addr then value else mem.get other := by
  simp only [Bus.write]
  split
  · rename_i i hi
    rw [get_write hi, Function.update_apply]
    by_cases heq : other = addr
    · rw [if_pos heq, if_pos ⟨by rw [heq, hi]; rfl, heq⟩]
    · rw [if_neg heq, if_neg fun h => heq h.2]
  · rename_i hnone
    rw [if_neg]
    rintro ⟨hsome, rfl⟩
    rw [hnone] at hsome
    contradiction

/-- The distance from one address further on, unless that is the last distance there is. -/
theorem toNat_sub_add_one {addr other : UInt16} (h : other ≠ addr) :
    (other - addr).toNat = (other - (addr + 1)).toNat + 1 := by
  have ha := addr.toNat_lt
  have ho := other.toNat_lt
  have hne : other.toNat ≠ addr.toNat := mt UInt16.toNat_inj.1 h
  have hone : (1 : UInt16).toNat = 1 := rfl
  rw [UInt16.toNat_sub, UInt16.toNat_sub, UInt16.toNat_add, hone]
  omega

/-- Bytes that were written one by one show wherever there are cells for them. -/
theorem get_writeEach {bytes : List UInt8} (hsize : bytes.length ≤ 0x10000) (other : UInt16) :
    (Bus.writeEach addr bytes mem).get other =
      if (mem.index? other).isSome ∧ (other - addr).toNat < bytes.length then
        bytes.getD (other - addr).toNat 0
      else mem.get other := by
  induction bytes generalizing mem addr with
  | nil =>
    rw [if_neg fun h => Nat.not_lt_zero _ h.2]
    rfl
  | cons b bytes ih =>
    rw [List.length_cons] at hsize ⊢
    rw [Bus.writeEach, ih (Nat.le_of_succ_le hsize), index?_write, get_write_snd]
    by_cases heq : other = addr
    · have hlast : (other - (addr + 1)).toNat = 0xFFFF := by
        have haddr := addr.toNat_lt
        rw [heq, UInt16.toNat_sub, UInt16.toNat_add, show (1 : UInt16).toNat = 1 from rfl]
        omega
      have hfirst : (other - addr).toNat = 0 := by
        rw [heq, UInt16.sub_self]
        rfl
      rw [if_neg (by omega), hfirst, List.getD_cons_zero]
      simp only [heq, and_true, Nat.succ_pos]
    · rw [toNat_sub_add_one heq, List.getD_cons_succ]
      simp only [heq, and_false, if_false, Nat.add_lt_add_iff_right]

theorem toNat_sub_lt_iff {n : Nat} (hfit : addr.toNat + n ≤ 0x10000) :
    (other - addr).toNat < n ↔ addr ≤ other ∧ other.toNat < addr.toNat + n := by
  have ho := other.toNat_lt
  rw [UInt16.le_iff_toNat_le]
  by_cases hle : addr.toNat ≤ other.toNat
  · rw [UInt16.toNat_sub_of_le _ _ (UInt16.le_iff_toNat_le.2 hle)]
    omega
  · rw [UInt16.toNat_sub]
    omega

variable {bytes : Array UInt8}

theorem get_of_index?_none {mem : FlatMemory} (h : mem.index? other = none) :
    mem.get other = 0 := by
  simp only [get, h]

/-- Bytes that do not begin in front of the memory show wherever there are cells for them. -/
theorem get_load_of_le (hbase : mem.base ≤ addr) (other : UInt16) :
    (mem.load addr bytes).get other =
      if (mem.index? other).isSome ∧ addr ≤ other ∧ other.toNat < addr.toNat + bytes.size then
        bytes.getD (other.toNat - addr.toNat) 0
      else mem.get other := by
  have hle := UInt16.le_iff_toNat_le.1 hbase
  have hstart := UInt16.toNat_sub_of_le _ _ hbase
  cases hi : mem.index? other with
  | none =>
    rw [if_neg (by simp), get_of_index?_none hi,
      get_of_index?_none ((congrFun (index?_load ..) other).trans hi)]
  | some i =>
    have hplace := (index?_eq_some.1 hi).1
    have hrange : (addr - mem.base).toNat ≤ i ∧ i < (addr - mem.base).toNat + bytes.size ↔
        (some i).isSome = true ∧ addr ≤ other ∧ other.toNat < addr.toNat + bytes.size := by
      rw [UInt16.le_iff_toNat_le, Option.isSome_some, eq_self, true_and, hstart]
      omega
    have hoffset : i - (addr - mem.base).toNat = other.toNat - addr.toNat := by
      omega
    rw [get_load hi, if_congr hrange rfl rfl, hoffset]

/-- The distance of an address in front of the memory leads behind all cells that have an
address. -/
theorem get_load_of_lt (hbase : addr < mem.base) : (mem.load addr bytes).get = mem.get := by
  have hlt := UInt16.lt_iff_toNat_lt.1 hbase
  funext other
  cases hi : mem.index? other with
  | none =>
    rw [get_of_index?_none hi, get_of_index?_none ((congrFun (index?_load ..) other).trans hi)]
  | some i =>
    have hplace := (index?_eq_some.1 hi).1
    have hother := other.toNat_lt
    have hbehind : i < (addr - mem.base).toNat := by
      rw [UInt16.toNat_sub]
      omega
    rw [get_load hi, if_neg (by omega)]

/-- Loading shows what writing the bytes one by one shows, if the first of them does not lie in
front of the memory. If it does, loading shows nothing, while those of the bytes for which there are
cells can be written. -/
theorem load_bytewise (mem : FlatMemory) (addr : UInt16) (bytes : Array UInt8)
    (hfit : addr.toNat + bytes.size ≤ 0x10000) :
    (mem.base ≤ addr →
      Bus.peek (mem.load addr bytes) = Bus.peek (Bus.writeEach addr bytes.toList mem)) ∧
    (addr < mem.base → Bus.peek (mem.load addr bytes) = Bus.peek mem) ∧
    ∀ other, Bus.peek (Bus.writeEach addr bytes.toList mem) other =
      if (mem.index? other).isSome ∧ addr ≤ other ∧ other.toNat < addr.toNat + bytes.size then
        bytes.getD (other.toNat - addr.toNat) 0
      else Bus.peek mem other := by
  have hwritten (other : UInt16) : (Bus.writeEach addr bytes.toList mem).get other =
      if (mem.index? other).isSome ∧ addr ≤ other ∧ other.toNat < addr.toNat + bytes.size then
        bytes.getD (other.toNat - addr.toNat) 0
      else mem.get other := by
    rw [get_writeEach (by rw [Array.length_toList]; omega), Array.length_toList,
      if_congr (and_congr_right' (toNat_sub_lt_iff hfit)) rfl rfl]
    split
    · rename_i hin
      rw [UInt16.toNat_sub_of_le _ _ hin.2.1, List.getD_eq_getElem?_getD,
        Array.getElem?_toList, Array.getD_eq_getD_getElem?]
    · rfl
  refine ⟨fun hbase => ?_, get_load_of_lt, hwritten⟩
  funext other
  rw [peek_eq, peek_eq, get_load_of_le hbase, hwritten]

def fourCells : FlatMemory :=
  cleared 4 0x8000

theorem load_bytewise_within :
    Bus.peek (fourCells.load 0x8001 #[1, 2]) =
        Bus.peek (Bus.writeEach 0x8001 [1, 2] fourCells) ∧
      Bus.peek (fourCells.load 0x8001 #[1, 2]) 0x8002 = 2 := by
  obtain ⟨hagree, -, hwritten⟩ := load_bytewise fourCells 0x8001 #[1, 2] (by decide)
  refine ⟨hagree (by decide), ?_⟩
  rw [hagree (by decide), hwritten, if_pos (by decide)]
  rfl

/-- The second byte has a cell, and can be written there, but loading loses it. -/
theorem load_in_front :
    Bus.peek (Bus.writeEach 0x7FFF [1, 2] fourCells) 0x8000 = 2 ∧
      Bus.peek (fourCells.load 0x7FFF #[1, 2]) 0x8000 = 0 := by
  decide

end FlatMemory

end M6502
