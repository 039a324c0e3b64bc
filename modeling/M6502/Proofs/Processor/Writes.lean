import M6502.Proofs.Processor.Nesting

/-!
# Results and writes

What an instruction computes and what it writes, read off its operation. A
store puts a register at the effective address, an operation on a byte of
memory puts its result back, pushes and calls write to the stack, and all
others write nothing. Flat memory takes the writes in turn, up to the first
that lies outside of it.
-/

set_option autoImplicit false

namespace M6502

theorem toNat_toUInt8 (c : Bool) : c.toUInt8.toNat = c.toNat := by
  cases c <;> rfl

theorem Modification.value_apply (f : Modification) (carry : Bool) (v : UInt8) :
    (f.apply carry v).1 =
      match f with
      | .shiftLeft => 2 * v
      | .shiftRight => v / 2
      | .rotateLeft => 2 * v + carry.toUInt8
      | .rotateRight => v / 2 + 128 * carry.toUInt8
      | .increment => v + 1
      | .decrement => v - 1 := by
  have htwo : (2 : UInt8).toNat = 2 := rfl
  have htop : (128 : UInt8).toNat = 128 := rfl
  have hv := v.toNat_lt
  have hcarry := carry.toNat_le
  cases f with
  | increment => rfl
  | decrement => rfl
  | shiftLeft =>
    rw [apply, ← UInt8.toNat_inj, UInt8.toNat_ofNat', UInt8.toNat_mul, htwo]
  | shiftRight =>
    rw [apply, ← UInt8.toNat_inj, UInt8.toNat_ofNat', UInt8.toNat_div, htwo]
    omega
  | rotateLeft =>
    rw [apply, ← UInt8.toNat_inj, UInt8.toNat_ofNat', UInt8.toNat_add, UInt8.toNat_mul, htwo,
      toNat_toUInt8]
    omega
  | rotateRight =>
    rw [apply, ← UInt8.toNat_inj, UInt8.toNat_ofNat', UInt8.toNat_add, UInt8.toNat_div, htwo,
      UInt8.toNat_mul, htop, toNat_toUInt8]
    omega

theorem value_addWithCarry (a b : UInt8) (c : Bool) :
    (addWithCarry a b c).value = a + b + c.toUInt8 := by
  rw [addWithCarry, ← UInt8.toNat_inj, UInt8.toNat_ofNat', UInt8.toNat_add, UInt8.toNat_add,
    toNat_toUInt8]
  omega

theorem value_subtractWithBorrow (a b : UInt8) (c : Bool) :
    (addWithCarry a (~~~b) c).value = a - b - (!c).toUInt8 := by
  have ha := a.toNat_lt
  have hb := b.toNat_lt
  have hcomplement : (~~~b).toNat = 255 - b.toNat := by
    rw [UInt8.toNat_not]
    rfl
  simp only [addWithCarry, ← UInt8.toNat_inj, UInt8.toNat_ofNat', UInt8.toNat_sub, toNat_toUInt8,
    hcomplement]
  cases c
  · rw [Bool.not_false, Bool.toNat_false, Bool.toNat_true]
    omega
  · rw [Bool.not_true, Bool.toNat_false, Bool.toNat_true]
    omega

namespace Encoding

section Operands

variable {β : Type} [Bus β] (e : Encoding) (m : Machine β)

def outcomeOn : Outcome :=
  e.outcome m.regs (Bus.peek m.bus) (Bus.wordBehind m.bus m.regs.pc)

def effective : UInt16 :=
  e.mode.effective m.regs.opened (Bus.peek m.bus) (Bus.wordBehind m.bus m.regs.pc)

def operandByte : UInt8 :=
  if e.mode = .implied then m.regs.a else Bus.peek m.bus (e.effective m)

def result? : Option UInt8 :=
  let b := e.operandByte m
  let carry := m.regs.status.carry
  match e.mnemonic with
  | .lda | .ldx | .ldy => some b
  | .tax | .tay => some m.regs.a
  | .txa => some m.regs.x
  | .tya => some m.regs.y
  | .tsx => some m.regs.sp
  | .inx => some (m.regs.x + 1)
  | .iny => some (m.regs.y + 1)
  | .dex => some (m.regs.x - 1)
  | .dey => some (m.regs.y - 1)
  | .inc => some (b + 1)
  | .dec => some (b - 1)
  | .and => some (m.regs.a &&& b)
  | .ora => some (m.regs.a ||| b)
  | .eor => some (m.regs.a ^^^ b)
  | .pla => some (Bus.peek m.bus (stackCell (m.regs.sp + 1)))
  | .cmp => some (m.regs.a - b)
  | .cpx => some (m.regs.x - b)
  | .cpy => some (m.regs.y - b)
  | .asl => some (2 * b)
  | .lsr => some (b / 2)
  | .rol => some (2 * b + carry.toUInt8)
  | .ror => some (b / 2 + 128 * carry.toUInt8)
  | .adc => some (m.regs.a + b + carry.toUInt8)
  | .sbc => some (m.regs.a - b - (!carry).toUInt8)
  | _ => none

def writes : List (UInt16 × UInt8) :=
  match e.mnemonic with
  | .sta => [(e.effective m, m.regs.a)]
  | .stx => [(e.effective m, m.regs.x)]
  | .sty => [(e.effective m, m.regs.y)]
  | .asl | .lsr | .rol | .ror | .inc | .dec =>
    if e.mode = .implied then [] else (e.result? m).toList.map (e.effective m, ·)
  | .pha => [(stackCell m.regs.sp, m.regs.a)]
  | .php => [(stackCell m.regs.sp, m.regs.status.pushed true)]
  | .jsr => [(stackCell m.regs.sp, highByte (m.regs.pc + 2)),
      (stackCell (m.regs.sp - 1), lowByte (m.regs.pc + 2))]
  | _ => []

end Operands

theorem stores_modify {mode : AddressingMode} (hmode : mode ≠ .implied) (f : Modification)
    (regs : Registers) (peek : UInt16 → UInt8) (v : UInt16) :
    ((Action.modify f).outcome mode regs peek v).stores.map (fun s => (s.addr, s.value)) =
      [(mode.effective regs peek v,
        (f.apply regs.status.carry (peek (mode.effective regs peek v))).1)] := by
  rw [Action.outcome, if_neg hmode]
  rfl

/-- A call pushes its return address, the high byte first. -/
theorem stores_call {β : Type} [Bus β] {e : Encoding} (h : e.mnemonic = .jsr) (m : Machine β) :
    ∃ aimed : Registers, (∀ r, aimed.get r = m.regs.get r) ∧
      (e.outcomeOn m).stores = [⟨stackCell m.regs.sp, highByte (m.regs.pc + 2), aimed⟩,
        ⟨stackCell (m.regs.sp - 1), lowByte (m.regs.pc + 2),
          { aimed with sp := m.regs.sp - 1 }⟩] := by
  obtain ⟨aimed, haimed, hstores, -⟩ := e.outcome_call h m.regs (Bus.peek m.bus)
    (Bus.wordBehind m.bus m.regs.pc)
  exact ⟨aimed, haimed, hstores⟩

/-- The writes of the outcome are those of the operation. -/
theorem map_stores {β : Type} [Bus β] (e : Encoding) (m : Machine β) :
    (e.outcomeOn m).stores.map (fun s => (s.addr, s.value)) = e.writes m := by
  obtain ⟨⟨opcode, op, mode⟩, hdoc⟩ := e
  cases op with
  | asl | lsr | rol | ror | inc | dec =>
    by_cases hmode : mode = .implied
    · subst hmode
      rfl
    · simp only [writes, result?, operandByte, if_neg hmode]
      rw [outcomeOn, outcome, Mnemonic.action, stores_modify hmode, Modification.value_apply]
      rfl
  | jsr =>
    obtain ⟨aimed, -, hstores⟩ :=
      stores_call
        (e := { opcode := opcode, mnemonic := .jsr, mode := mode, documented := hdoc }) rfl m
    rw [hstores]
    rfl
  | _ => rfl

end Encoding

namespace FlatMemory

variable {mem mid next : FlatMemory} {addr : UInt16}

def contains (mem : FlatMemory) (addr : UInt16) : Bool :=
  mem.base.toNat ≤ addr.toNat && addr.toNat < mem.base.toNat + mem.cells.size

theorem contains_iff : mem.contains addr = true ↔ ∃ i, mem.index? addr = some i := by
  simp only [contains, Bool.and_eq_true, decide_eq_true_eq, index?_eq_some]
  constructor
  · intro h
    exact ⟨addr.toNat - mem.base.toNat, by omega⟩
  · rintro ⟨i, hi, hlt⟩
    omega

theorem write_outside (h : mem.contains addr = false) (value : UInt8) :
    Bus.write addr value mem = (.error (.unmappedWrite addr value), mem) := by
  have hindex : mem.index? addr = none := by
    rw [Option.eq_none_iff_forall_ne_some]
    intro i hi
    rw [contains_iff.2 ⟨i, hi⟩] at h
    contradiction
  simp only [Bus.write, hindex]

structure SameBut (addrs : List UInt16) (mem next : FlatMemory) : Prop where
  base_eq : next.base = mem.base
  size_eq : next.cells.size = mem.cells.size
  cell_eq : ∀ i, (∀ a ∈ addrs, mem.index? a ≠ some i) → next.cells[i]? = mem.cells[i]?

namespace SameBut

variable {addrs front back : List UInt16}

theorem refl (addrs : List UInt16) (mem : FlatMemory) : SameBut addrs mem mem :=
  ⟨rfl, rfl, fun _ _ => rfl⟩

theorem index?_eq (h : SameBut addrs mem next) (a : UInt16) : next.index? a = mem.index? a := by
  simp only [index?, h.base_eq, h.size_eq]

theorem contains_eq (h : SameBut addrs mem next) (a : UInt16) :
    next.contains a = mem.contains a := by
  simp only [contains, h.base_eq, h.size_eq]

theorem append (h : SameBut front mem mid) (k : SameBut back mid next) :
    SameBut (front ++ back) mem next where
  base_eq := k.base_eq.trans h.base_eq
  size_eq := k.size_eq.trans h.size_eq
  cell_eq i hi := by
    rw [List.forall_mem_append] at hi
    rw [k.cell_eq i fun a ha => h.index?_eq a ▸ hi.2 a ha, h.cell_eq i hi.1]

end SameBut

theorem write_inside (h : mem.contains addr = true) (value : UInt8) :
    ∃ next, Bus.write addr value mem = (.ok (), next) ∧ SameBut [addr] mem next ∧
      next.get = Function.update mem.get addr value := by
  obtain ⟨i, hi⟩ := contains_iff.1 h
  refine ⟨{ mem with cells := mem.cells.setIfInBounds i value }, ?_, ⟨rfl, ?_, ?_⟩,
    get_write hi value⟩
  · simp only [Bus.write, hi]
  · exact Array.size_setIfInBounds
  · intro j hj
    rw [List.forall_mem_singleton, hi, Ne, Option.some.injEq] at hj
    exact Array.getElem?_setIfInBounds_ne hj

end FlatMemory

namespace Outcome

variable {final : Registers} {stores front back : List Store} {mem : FlatMemory}

/-- Writes to cells of flat memory are all accepted. -/
theorem commit_inside (final : Registers) (h : ∀ s ∈ stores, mem.contains s.addr = true) :
    ∃ next, commit final stores mem = .ok () ⟨final, next⟩ ∧
      mem.SameBut (stores.map Store.addr) next ∧ next.get = stored stores mem.get := by
  induction stores generalizing mem with
  | nil => exact ⟨mem, rfl, .refl [] mem, rfl⟩
  | cons s stores ih =>
    rw [List.forall_mem_cons] at h
    obtain ⟨mid, hwrite, hsame, hget⟩ := FlatMemory.write_inside h.1 s.value
    obtain ⟨next, hcommit, hsame', hget'⟩ :=
      ih fun t ht => (hsame.contains_eq t.addr).trans (h.2 t ht)
    refine ⟨next, ?_, hsame.append hsame', ?_⟩
    · rw [commit, hwrite]
      exact hcommit
    · rw [hget', hget, stored]

/-- The first write outside of flat memory is refused, and those before it stay. -/
theorem commit_outside {s : Store} (h : ∀ t ∈ front, mem.contains t.addr = true)
    (hs : mem.contains s.addr = false) :
    ∃ next, commit s.refused front mem = .ok () ⟨s.refused, next⟩ ∧
      commit final (front ++ s :: back) mem =
        .error (.bus s.addr (.unmappedWrite s.addr s.value)) ⟨s.refused, next⟩ := by
  induction front generalizing mem with
  | nil =>
    refine ⟨mem, rfl, ?_⟩
    rw [List.nil_append, commit, FlatMemory.write_outside hs]
  | cons t front ih =>
    rw [List.forall_mem_cons] at h
    obtain ⟨mid, hwrite, hsame, -⟩ := FlatMemory.write_inside h.1 t.value
    obtain ⟨next, hfront, hall⟩ := ih
      (fun r hr => (hsame.contains_eq r.addr).trans (h.2 r hr))
      ((hsame.contains_eq s.addr).trans hs)
    refine ⟨next, ?_, ?_⟩
    · rw [commit, hwrite]
      exact hfront
    · rw [List.cons_append, commit, hwrite]
      exact hall

end Outcome

theorem Outcome.stored_of_mem {stores : List Store} {s : Store} (hs : s ∈ stores)
    (hnodup : (stores.map Store.addr).Nodup) (peek : UInt16 → UInt8) :
    stored stores peek s.addr = s.value := by
  induction stores generalizing peek with
  | nil => contradiction
  | cons t stores ih =>
    rw [List.map_cons, List.nodup_cons] at hnodup
    rw [stored]
    rcases List.mem_cons.1 hs with rfl | hs
    · have hlater : ∀ r ∈ stores, r.addr ≠ s.addr := fun r hr heq =>
        hnodup.1 (heq ▸ List.mem_map_of_mem hr)
      rw [stored_of_ne hlater, Function.update_self]
    · exact ih hs hnodup.2 _

namespace Encoding

/-- Nothing but a call writes more than one byte. -/
theorem length_writes {β : Type} [Bus β] {e : Encoding} (h : e.mnemonic ≠ .jsr) (m : Machine β) :
    (e.writes m).length ≤ 1 := by
  cases hop : e.mnemonic with
  | jsr => contradiction
  | asl | lsr | rol | ror | inc | dec =>
    simp only [writes, hop]
    split
    · exact Nat.zero_le 1
    · rw [List.length_map]
      exact Option.length_toList_le
  | _ => simp [writes, hop]

theorem nodup_writes {β : Type} [Bus β] (e : Encoding) (m : Machine β) :
    ((e.writes m).map Prod.fst).Nodup := by
  by_cases hjsr : e.mnemonic = .jsr
  · simp only [writes, hjsr, List.map_cons, List.map_nil, List.nodup_cons, List.mem_singleton]
    exact ⟨stackCell_ne_next m.regs.sp, List.not_mem_nil, List.nodup_nil⟩
  · have hlength := length_writes hjsr m
    match e.writes m, hlength with
    | [], _ => exact List.nodup_nil
    | [w], _ => exact List.nodup_singleton w.1

variable (e : Encoding) (m : Machine FlatMemory)

def refused? : Option (UInt16 × UInt8) :=
  (e.writes m).find? fun w => !m.bus.contains w.1

variable {e m}

theorem inside_of_refused? (h : e.refused? m = none) :
    ∀ s ∈ (e.outcomeOn m).stores, m.bus.contains s.addr = true := by
  intro s hs
  rw [refused?, List.find?_eq_none, ← map_stores] at h
  simpa using h _ (List.mem_map_of_mem hs)

theorem outside_of_refused? {w : UInt16 × UInt8} (h : e.refused? m = some w) :
    ∃ front s back, (e.outcomeOn m).stores = front ++ s :: back ∧ (s.addr, s.value) = w ∧
      (∀ t ∈ front, m.bus.contains t.addr = true) ∧ m.bus.contains s.addr = false := by
  rw [refused?, ← map_stores, List.find?_map, Option.map_eq_some_iff] at h
  obtain ⟨s, hfind, hw⟩ := h
  obtain ⟨hs, front, back, hstores, hfront⟩ := List.find?_eq_some_iff_append.1 hfind
  exact ⟨front, s, back, hstores, hw, by simpa using hfront, by simpa using hs⟩

end Encoding

section Steps

variable {m : Machine FlatMemory} {e : Encoding}
  (h : Encoding.ofOpcode? (m.bus.get m.regs.pc) = some e)
include h

/-- A step none of whose writes lies outside of the memory succeeds. -/
theorem step_accepted (hr : e.refused? m = none) :
    ∃ next, step m = .ok e ⟨(e.outcomeOn m).regs, next⟩ ∧
      m.bus.SameBut ((e.writes m).map Prod.fst) next ∧ ∀ w ∈ e.writes m, next.get w.1 = w.2 := by
  have hshows : Bus.Shows m.bus m.regs.pc (e.bytes _) := Bus.shows_behind h
  obtain ⟨last, hreads, hstep⟩ := step_eq hshows
  obtain ⟨next, hcommit, hsame, hget⟩ :=
    Outcome.commit_inside (e.outcomeOn m).regs (Encoding.inside_of_refused? hr)
  rw [FlatMemory.eq_of_reads hreads, ← Encoding.outcomeOn, hcommit] at hstep
  have haddrs : (e.writes m).map Prod.fst = (e.outcomeOn m).stores.map Store.addr := by
    rw [← e.map_stores, List.map_map]
    rfl
  refine ⟨next, hstep, haddrs ▸ hsame, fun w hw => ?_⟩
  have hnodup := e.nodup_writes m
  rw [haddrs] at hnodup
  rw [← e.map_stores] at hw
  obtain ⟨s, hs, rfl⟩ := List.mem_map.1 hw
  rw [hget]
  exact Outcome.stored_of_mem hs hnodup _

/-- A step stops at its first write outside of the memory. -/
theorem step_refused {w : UInt16 × UInt8} (hr : e.refused? m = some w) :
    ∃ front s back next, (e.outcomeOn m).stores = front ++ s :: back ∧ (s.addr, s.value) = w ∧
      Outcome.commit s.refused front m.bus = .ok () ⟨s.refused, next⟩ ∧
      step m = .error (.bus w.1 (.unmappedWrite w.1 w.2)) ⟨s.refused, next⟩ := by
  have hshows : Bus.Shows m.bus m.regs.pc (e.bytes _) := Bus.shows_behind h
  obtain ⟨last, hreads, hstep⟩ := step_eq hshows
  obtain ⟨front, s, back, hstores, rfl, hfront, hs⟩ := Encoding.outside_of_refused? hr
  obtain ⟨next, hcommit, hall⟩ := Outcome.commit_outside hfront hs
  rw [FlatMemory.eq_of_reads hreads, ← Encoding.outcomeOn, hstores, hall] at hstep
  exact ⟨front, s, back, next, hstores, rfl, hcommit, hstep⟩

end Steps

end M6502
