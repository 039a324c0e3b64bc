import M6502.Bus.Flat
import Mathlib.Logic.Function.Basic

/-!
# Cells

A bus is seen through what its reads answer. On a bus that stores bytes,
reading changes nothing that can be read, and some addresses are cells:
what is written there shows there and nowhere else.
-/

set_option autoImplicit false

namespace M6502

theorem toNat_add_ofNat {addr : UInt16} {i : Nat} (h : addr.toNat + i < 0x10000) :
    (addr + UInt16.ofNat i).toNat = addr.toNat + i := by
  rw [UInt16.toNat_add, UInt16.toNat_ofNat']
  omega

theorem add_one_add_ofNat (addr : UInt16) (i : Nat) :
    addr + 1 + UInt16.ofNat i = addr + UInt16.ofNat (i + 1) := by
  rw [UInt16.ofNat_add, UInt16.add_assoc, UInt16.add_comm 1]
  rfl

theorem toNat_sub_eq_iff {addr start : UInt16} {i : Nat} (hi : i < 0x10000) :
    (addr - start).toNat = i ↔ addr = start + UInt16.ofNat i := by
  constructor
  · rintro rfl
    rw [UInt16.ofNat_toNat, UInt16.add_comm, UInt16.sub_add_cancel]
  · rintro rfl
    rw [UInt16.add_comm, UInt16.add_sub_cancel, UInt16.toNat_ofNat', Nat.mod_eq_of_lt hi]

def Bus.peek {β : Type} [Bus β] (bus : β) (addr : UInt16) : UInt8 :=
  (Bus.read addr bus).1

namespace Bus

variable {β : Type} [Bus β]

def Shows (bus : β) : UInt16 → List UInt8 → Prop
  | _, [] => True
  | addr, b :: bytes => peek bus addr = b ∧ Shows bus (addr + 1) bytes

theorem shows_iff {bus : β} {addr : UInt16} {bytes : List UInt8} :
    Shows bus addr bytes ↔
      ∀ i < bytes.length, bytes[i]? = some (peek bus (addr + UInt16.ofNat i)) := by
  induction bytes generalizing addr with
  | nil => simp [Shows]
  | cons b bytes ih =>
    rw [Shows, ih]
    constructor
    · rintro ⟨h0, h⟩ i hi
      cases i with
      | zero => simpa using h0.symm
      | succ i =>
        rw [List.getElem?_cons_succ, ← add_one_add_ofNat]
        exact h i (Nat.lt_of_succ_lt_succ hi)
    · intro h
      constructor
      · simpa using (h 0 (Nat.succ_pos _)).symm
      · intro i hi
        rw [add_one_add_ofNat, ← List.getElem?_cons_succ]
        exact h (i + 1) (Nat.succ_lt_succ hi)

theorem shows_append {bus : β} {addr : UInt16} {front back : List UInt8} :
    Shows bus addr (front ++ back) ↔
      Shows bus addr front ∧ Shows bus (addr + UInt16.ofNat front.length) back := by
  induction front generalizing addr with
  | nil =>
    show Shows bus addr back ↔ True ∧ Shows bus (addr + 0) back
    rw [UInt16.add_zero, true_and]
  | cons b front ih =>
    rw [List.cons_append, Shows, Shows, ih, add_one_add_ofNat, List.length_cons, and_assoc]

/-- Bytes show as long as reads at their addresses answer the same. -/
theorem Shows.keep {bus next : β} {addr : UInt16} {bytes : List UInt8} (h : Shows bus addr bytes)
    (hpeek : ∀ i < bytes.length,
      peek next (addr + UInt16.ofNat i) = peek bus (addr + UInt16.ofNat i)) :
    Shows next addr bytes := by
  rw [shows_iff] at h ⊢
  intro i hi
  rw [hpeek i hi]
  exact h i hi

end Bus

def placed (mem : UInt16 → UInt8) (start : UInt16) (b : Nat → UInt8) (n : Nat) (addr : UInt16) :
    UInt8 :=
  if (addr - start).toNat < n then b (addr - start).toNat else mem addr

section Placed

variable {mem : UInt16 → UInt8} {start : UInt16} {b : Nat → UInt8} {n i : Nat}

theorem placed_at (hi : i < n) (hn : n ≤ 0x10000) :
    placed mem start b n (start + UInt16.ofNat i) = b i := by
  rw [placed, (toNat_sub_eq_iff (by omega)).2 rfl, if_pos hi]

theorem placed_succ (hi : i < 0x10000) :
    Function.update (placed mem start b i) (start + UInt16.ofNat i) (b i) =
      placed mem start b (i + 1) := by
  funext addr
  have hplace : (addr - start).toNat = i ↔ addr = start + UInt16.ofNat i := toNat_sub_eq_iff hi
  rw [Function.update_apply, placed, placed]
  by_cases heq : addr = start + UInt16.ofNat i
  · rw [if_pos heq, hplace.2 heq, if_pos (Nat.lt_succ_self i)]
  · rw [if_neg heq]
    have hne := mt hplace.1 heq
    by_cases hlt : (addr - start).toNat < i
    · rw [if_pos hlt, if_pos (by omega)]
    · rw [if_neg hlt, if_neg (by omega)]

end Placed

class Storage (β : Type) [Bus β] where
  /-- The address takes writes, and no other address shows what it holds. -/
  Cell : β → UInt16 → Prop
  peek_read (addr : UInt16) (bus : β) : Bus.peek (Bus.read addr bus).2 = Bus.peek bus
  cell_read (addr : UInt16) (bus : β) : Cell (Bus.read addr bus).2 = Cell bus
  write_cell {bus : β} {addr : UInt16} (h : Cell bus addr) (value : UInt8) :
    ∃ next, Bus.write addr value bus = (.ok (), next) ∧
      Bus.peek next = Function.update (Bus.peek bus) addr value ∧ Cell next = Cell bus

structure Storage.Same {β : Type} [Bus β] [Storage β] (bus next : β) : Prop where
  peek_eq : Bus.peek next = Bus.peek bus
  cell_eq : Storage.Cell next = Storage.Cell bus

inductive Bus.Reads {β : Type} [Bus β] : β → β → Prop
  | refl (bus : β) : Reads bus bus
  | read {bus next : β} (h : Reads bus next) (addr : UInt16) : Reads bus (Bus.read addr next).2

theorem Bus.Reads.trans {β : Type} [Bus β] {bus next last : β} (h : Reads bus next)
    (k : Reads next last) : Reads bus last := by
  induction k with
  | refl => exact h
  | read _ addr ih => exact ih.read addr

namespace Storage

variable {β : Type} [Bus β] [Storage β] {bus next last : β}

theorem Same.refl (bus : β) : Same bus bus :=
  ⟨rfl, rfl⟩

theorem Same.trans (h : Same bus next) (k : Same next last) : Same bus last :=
  ⟨k.peek_eq.trans h.peek_eq, k.cell_eq.trans h.cell_eq⟩

theorem Same.shows (h : Same bus next) {addr : UInt16} {bytes : List UInt8} :
    Bus.Shows next addr bytes ↔ Bus.Shows bus addr bytes := by
  simp only [Bus.shows_iff, h.peek_eq]

theorem Same.read (h : Same bus next) (addr : UInt16) : Same bus (Bus.read addr next).2 :=
  h.trans ⟨peek_read addr next, cell_read addr next⟩

end Storage

namespace Bus.Reads

variable {β : Type} [Bus β] [Storage β] {bus next : β}

theorem same (h : Reads bus next) : Storage.Same bus next := by
  induction h with
  | refl => exact .refl bus
  | read _ addr ih => exact ih.read addr

theorem peek_eq (h : Reads bus next) : Bus.peek next = Bus.peek bus :=
  h.same.peek_eq

theorem shows (h : Reads bus next) {addr : UInt16} {bytes : List UInt8} :
    Bus.Shows next addr bytes ↔ Bus.Shows bus addr bytes :=
  h.same.shows

end Bus.Reads

namespace FlatMemory

theorem index?_eq_some {mem : FlatMemory} {addr : UInt16} {i : Nat} :
    mem.index? addr = some i ↔ mem.base.toNat + i = addr.toNat ∧ i < mem.cells.size := by
  have hle : mem.base ≤ addr ↔ mem.base.toNat ≤ addr.toNat := UInt16.le_iff_toNat_le
  simp only [index?, hle, Option.ite_none_right_eq_some, Option.some.injEq]
  omega

theorem get_of_index? {mem : FlatMemory} {addr : UInt16} {i : Nat} (h : mem.index? addr = some i) :
    mem.get addr = mem.cells.getD i 0 := by
  simp only [get, h]

theorem peek_eq (mem : FlatMemory) : Bus.peek mem = mem.get :=
  rfl

theorem eq_of_reads {mem next : FlatMemory} (h : Bus.Reads mem next) : next = mem := by
  induction h with
  | refl => rfl
  | read _ _ ih => exact ih

theorem get_write {mem : FlatMemory} {addr : UInt16} {i : Nat} (h : mem.index? addr = some i)
    (value : UInt8) :
    { mem with cells := mem.cells.setIfInBounds i value }.get =
      Function.update mem.get addr value := by
  obtain ⟨hi, hlt⟩ := index?_eq_some.1 h
  have hindex (other : UInt16) :
      { mem with cells := mem.cells.setIfInBounds i value }.index? other = mem.index? other := by
    simp only [index?, Array.size_setIfInBounds]
  funext other
  rw [Function.update_apply]
  by_cases ho : other = addr
  · rw [if_pos ho, ho, get_of_index? (hindex addr |>.trans h), Array.getD_eq_getD_getElem?]
    simp [hlt]
  · rw [if_neg ho]
    cases hother : mem.index? other with
    | none => simp only [get, hindex, hother]
    | some j =>
      have hne : i ≠ j := by
        rintro rfl
        have hj := (index?_eq_some.1 hother).1
        exact ho (UInt16.toNat_inj.1 (by omega))
      rw [get_of_index? (hindex other |>.trans hother), get_of_index? hother,
        Array.getD_eq_getD_getElem?, Array.getD_eq_getD_getElem?,
        Array.getElem?_setIfInBounds_ne hne]

instance : Storage FlatMemory where
  Cell mem addr := ∃ i, mem.index? addr = some i
  peek_read _ _ := rfl
  cell_read _ _ := rfl
  write_cell := by
    rintro mem addr ⟨i, hi⟩ value
    refine ⟨{ mem with cells := mem.cells.setIfInBounds i value }, ?_, get_write hi value, ?_⟩
    · simp only [Bus.write, hi]
    · simp only [index?, Array.size_setIfInBounds]

structure Full (mem : FlatMemory) : Prop where
  base_eq : mem.base = 0
  size_eq : mem.cells.size = 0x10000

theorem Full.cell {mem : FlatMemory} (h : mem.Full) (addr : UInt16) : Storage.Cell mem addr := by
  refine ⟨addr.toNat, index?_eq_some.2 ⟨?_, ?_⟩⟩
  · rw [h.base_eq]
    exact Nat.zero_add _
  · rw [h.size_eq]
    exact addr.toNat_lt

theorem full_cleared : (cleared 0x10000 0).Full :=
  ⟨rfl, Array.size_replicate⟩

theorem Full.load {mem : FlatMemory} (h : mem.Full) (addr : UInt16) (bytes : Array UInt8) :
    (mem.load addr bytes).Full :=
  ⟨h.base_eq, (size_cells_load mem addr bytes).trans h.size_eq⟩

end FlatMemory

end M6502
