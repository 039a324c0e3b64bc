import M6502.Program.Snippet
import M6502.Proofs.Bus.Effect
import M6502.Proofs.Bus.Loading
import M6502.Proofs.Disassembly.Resync
import M6502.Proofs.Processor.Agreement
import M6502.Proofs.Program.Failure
import M6502.Proofs.Program.Labels

/-!
# References land on their labels

The layout states the distance to a label as a number, and the processor adds
a signed byte to a program counter that has moved on. Both lead to the same
place: an instruction that refers to a label goes to the address that the
label has, from wherever its bytes were loaded. A call does so unless the bus
refuses one of the bytes that it pushes.
-/

set_option autoImplicit false

namespace M6502

namespace Bus

/-- The bus accepts the two bytes of `back` that a call pushes, the high byte first. -/
def TakesReturn {β : Type} [Bus β] (bus : β) (sp : UInt8) (back : UInt16) : Prop :=
  ∃ mid last, Bus.write (stackCell sp) (highByte back) bus = (.ok (), mid) ∧
    Bus.write (stackCell (sp - 1)) (lowByte back) mid = (.ok (), last)

theorem takesReturn_of_commit {β : Type} [Bus β] {bus : β} {sp : UInt8} {back : UInt16}
    {first second final : Registers} {m : Machine β}
    (h : Outcome.commit final [⟨stackCell sp, highByte back, first⟩,
      ⟨stackCell (sp - 1), lowByte back, second⟩] bus = .ok () m) : TakesReturn bus sp back := by
  simp only [Outcome.commit] at h
  split at h
  · rename_i _ mid hhigh
    split at h
    · rename_i _ last hlow
      exact ⟨mid, last, hhigh, hlow⟩
    · contradiction
  · contradiction

end Bus

theorem FlatMemory.takesReturn_of_reads {mem next : FlatMemory} (h : Bus.Reads mem next) :
    Bus.TakesReturn next = Bus.TakesReturn mem := by
  rw [eq_of_reads h]

namespace MappedBus

theorem takesReturn_iff {bus : MappedBus} {sp : UInt8} {back : UInt16} :
    Bus.TakesReturn bus sp back ↔
      bus.Accepts (stackCell sp) ∧ bus.Accepts (stackCell (sp - 1)) := by
  constructor
  · rintro ⟨mid, last, hhigh, hlow⟩
    have hsecond : mid.Accepts (stackCell (sp - 1)) := accepts_iff.1 ⟨last, hlow⟩
    rw [(peek_write hhigh).1.accepts_eq] at hsecond
    exact ⟨accepts_iff.1 ⟨mid, hhigh⟩, hsecond⟩
  · rintro ⟨hfirst, hsecond⟩
    obtain ⟨mid, hhigh⟩ := accepts_iff.2 hfirst
    rw [← (peek_write hhigh).1.accepts_eq] at hsecond
    obtain ⟨last, hlow⟩ := accepts_iff.2 hsecond
    exact ⟨mid, last, hhigh, hlow⟩

theorem takesReturn_of_reads {bus next : MappedBus} (h : Bus.Reads bus next) :
    Bus.TakesReturn next = Bus.TakesReturn bus := by
  funext sp back
  rw [takesReturn_iff, takesReturn_iff, (SameLayout.of_reads h).accepts_eq]

end MappedBus

namespace Placement

/-- An item whose bytes no later item overwrites. -/
def Exposed (us : List Placement) (u : Placement) : Prop :=
  ∃ before after, us = before ++ u :: after ∧
    ∀ v ∈ after, ∀ i, u.covers i = true → v.covers i = false

theorem Exposed.mem {us : List Placement} {u : Placement} (h : Exposed us u) : u ∈ us := by
  obtain ⟨before, after, rfl, -⟩ := h
  exact List.mem_append_right _ List.mem_cons_self

theorem covers_of_lt {u : Placement} {i : Nat} (h : i < u.position) : u.covers i = false := by
  rw [← Bool.not_eq_true, covers_iff]
  omega

theorem covers_of_behind {u v : Placement} (h : u.stop ≤ v.position) {i : Nat}
    (hi : u.covers i = true) : v.covers i = false :=
  covers_of_lt (Nat.lt_of_lt_of_le (covers_iff.1 hi).2 h)

theorem lastOver_of_clear {us : List Placement} {i : Nat} (h : ∀ v ∈ us, v.covers i = false) :
    lastOver us i = none := by
  rw [lastOver, List.getLast?_eq_none_iff, List.filter_eq_nil_iff]
  intro v hv
  rw [h v hv]
  exact Bool.false_ne_true

theorem Exposed.lastOver_eq {us : List Placement} {u : Placement} (h : Exposed us u) {i : Nat}
    (hi : u.covers i = true) : lastOver us i = some u := by
  obtain ⟨before, after, rfl, hclear⟩ := h
  rw [← List.singleton_append, lastOver_append, lastOver_append,
    lastOver_of_clear fun v hv => hclear v hv i hi, lastOver_singleton, if_pos (covers_iff.1 hi)]
  rfl

end Placement

namespace Program

open Placement

/-- A build is the front of the whole one, or all of it. -/
theorem build_front {p : Program} {clamp : Bool} {bytes : Array UInt8}
    (h : p.build clamp = .ok bytes) :
    ∃ whole, p.build false = .ok whole ∧
      ∀ (i : Nat) (b : UInt8), bytes[i]? = some b → whole[i]? = some b := by
  cases clamp with
  | false => exact ⟨bytes, h, fun _ _ hb => hb⟩
  | true =>
    rw [build_clamped] at h
    cases hw : p.build false with
    | error e =>
      rw [hw] at h
      contradiction
    | ok whole =>
      rw [hw] at h
      obtain ⟨n, rfl⟩ : ∃ n, bytes = whole.take n := ⟨_, (Except.ok.inj h).symm⟩
      refine ⟨whole, rfl, fun i b hb => ?_⟩
      rw [Array.take_eq_extract, Array.getElem?_extract, Nat.zero_add] at hb
      split at hb
      · exact hb
      · contradiction

/-- A build has the bytes of an exposed item where the item stands. -/
theorem bytes_exposed {p : Program} {bytes : Array UInt8} (hbuild : p.build false = .ok bytes)
    {u : Placement} (hu : Exposed (replay 0 p.items.toList) u) :
    ∃ bs, p.encode u.position u.item = .ok bs ∧ u.stop ≤ bytes.size ∧
      ∀ k < bs.length, bytes[u.position + k]? = bs[k]? := by
  obtain ⟨hresolves, hroom⟩ := (build_exists_iff p).1 ⟨bytes, hbuild⟩ u hu.mem
  obtain ⟨bs, hbs⟩ := encode_ok_iff.2 hresolves
  obtain ⟨hsize, hall⟩ := bytes_of_build hbuild
  refine ⟨bs, hbs, hsize ▸ hroom, fun k hk => ?_⟩
  rw [length_encode hbs] at hk
  have hcovers : u.covers (u.position + k) = true :=
    covers_iff.2 ⟨Nat.le_add_right _ _, Nat.add_lt_add_left hk _⟩
  obtain ⟨b, hget, hshows⟩ := hall _ (Nat.lt_of_lt_of_le (covers_iff.1 hcovers).2 hroom)
  rw [Shows, hu.lastOver_eq hcovers] at hshows
  obtain ⟨cs, hcs, hcell⟩ := hshows
  obtain rfl := Except.ok.inj (hbs.symm.trans hcs)
  rw [Nat.add_sub_cancel_left] at hcell
  rw [hcell, hget]

/-- Where a bus shows a build under an exposed item, it shows what the item stands for. -/
theorem shows_exposed {β : Type} [Bus β] {bus : β} {p : Program} {bytes : Array UInt8}
    (hbuild : p.build false = .ok bytes) {u : Placement}
    (hu : Exposed (replay 0 p.items.toList) u)
    (hbus : ∀ i, u.covers i = true →
      bytes[i]? = some (Bus.peek bus (UInt16.ofNat (p.origin.toNat + i)))) :
    ∃ bs, p.encode u.position u.item = .ok bs ∧
      Bus.Shows bus (UInt16.ofNat (p.origin.toNat + u.position)) bs := by
  obtain ⟨bs, hbs, -, hbytes⟩ := bytes_exposed hbuild hu
  refine ⟨bs, hbs, ?_⟩
  rw [Bus.shows_iff]
  intro k hk
  have hcovers : u.covers (u.position + k) = true := by
    rw [length_encode hbs] at hk
    exact covers_iff.2 ⟨Nat.le_add_right _ _, Nat.add_lt_add_left hk _⟩
  rw [← hbytes k hk, hbus _ hcovers, ← UInt16.ofNat_add, Nat.add_assoc]

/-- The displacement byte of a branch leads from behind the branch to the label. -/
theorem encode_branch {p : Program} {cursor : Nat} {e : Encoding} {name : String}
    {bs : List UInt8} (h : p.encode cursor (.instruction ⟨e, .displacement name⟩) = .ok bs) :
    ∃ addr d, p.address? name = some addr ∧ bs = e.bytes (UInt8.toUInt16 d) ∧
      UInt16.ofNat (p.origin.toNat + cursor) + 2 + signExtend d = addr := by
  obtain ⟨w, hw, hbs⟩ := bind_ok_iff.1 h
  obtain ⟨d, hd, hw⟩ := bind_ok_iff.1 hw
  obtain rfl := Except.ok.inj hw
  obtain ⟨addr, haddr, ⟨hlow, hhigh⟩, rfl⟩ := displacement_ok_iff.1 hd
  refine ⟨addr, _, haddr, (Except.ok.inj hbs).symm, ?_⟩
  have htarget := toNat_branchTarget (UInt16.ofNat (p.origin.toNat + cursor))
    (UInt8.ofInt (p.distance addr cursor))
  have hdistance : p.distance addr cursor = addr.toNat - p.origin.toNat - cursor - 2 := rfl
  rw [toInt_ofInt hlow hhigh, UInt16.toNat_ofNat'] at htarget
  have hlt := addr.toNat_lt
  rw [← UInt16.toNat_inj]
  omega

theorem encode_label {p : Program} {cursor : Nat} {e : Encoding} {name : String}
    {bs : List UInt8} (h : p.encode cursor (.instruction ⟨e, .label name⟩) = .ok bs) :
    ∃ addr, p.address? name = some addr ∧ bs = e.bytes addr := by
  obtain ⟨addr, haddr, hbs⟩ := bind_ok_iff.1 h
  exact ⟨addr, resolve_ok_iff.1 haddr, (Except.ok.inj hbs).symm⟩

/-- On this bus, every instruction of the program that refers to a label, and that no later item
overwrites, takes the processor there: a call does where the bus accepts what it pushes. -/
structure Lands {β : Type} [Bus β] (p : Program) (us : List Placement) (bus : β) : Prop where
  branch : ∀ cursor e name f on (regs : Registers),
    Exposed us ⟨cursor, .instruction ⟨e, .displacement name⟩⟩ →
    e.mnemonic.condition? = some (f, on) → regs.pc = UInt16.ofNat (p.origin.toNat + cursor) →
    ∃ m, step ⟨regs, bus⟩ = .ok e m ∧
      if regs.flag f = on then p.address? name = some m.regs.pc
      else m.regs.pc.toNat = (p.origin.toNat + cursor + 2) % 0x10000
  jump : ∀ cursor e name (regs : Registers),
    Exposed us ⟨cursor, .instruction ⟨e, .label name⟩⟩ →
    e.mnemonic = .jmp → e.mode = .absolute →
    regs.pc = UInt16.ofNat (p.origin.toNat + cursor) →
    ∃ m, step ⟨regs, bus⟩ = .ok e m ∧ p.address? name = some m.regs.pc
  call : ∀ cursor e name (regs : Registers),
    Exposed us ⟨cursor, .instruction ⟨e, .label name⟩⟩ →
    e.mnemonic = .jsr → regs.pc = UInt16.ofNat (p.origin.toNat + cursor) →
    Bus.TakesReturn bus regs.sp (regs.pc + 2) →
    ∃ m, step ⟨regs, bus⟩ = .ok e m ∧ p.address? name = some m.regs.pc
  refused : ∀ cursor e name (regs : Registers),
    Exposed us ⟨cursor, .instruction ⟨e, .label name⟩⟩ →
    e.mnemonic = .jsr → regs.pc = UInt16.ofNat (p.origin.toNat + cursor) →
    ¬Bus.TakesReturn bus regs.sp (regs.pc + 2) →
    ∃ cell cause m, (cell = stackCell regs.sp ∨ cell = stackCell (regs.sp - 1)) ∧
      step ⟨regs, bus⟩ = .error (.bus cell cause) m

end Program

section Steps

variable {β : Type} [Bus β] [Storage β] {bus : β} {regs : Registers} {e : Encoding} {v : UInt16}

open Storage

theorem step_branch {f : Flag} {on : Bool} (ha : e.mnemonic.action = .branch f on)
    (h : Bus.Shows bus regs.pc (e.bytes v)) :
    ∃ m : Machine β, step ⟨regs, bus⟩ = .ok e m ∧ m.regs.pc =
      if regs.flag f = on then regs.pc + 2 + signExtend (lowByte v) else regs.pc + 2 := by
  have hquiet : (e.outcome regs (Bus.peek bus) v).stores = [] := by
    rw [Encoding.outcome, ha]
    rfl
  obtain ⟨next, -, hstep⟩ := step_quiet h hquiet
  exact ⟨_, hstep, congrArg Registers.pc (Mnemonic.regs_branch ha)⟩

theorem step_jump (hm : e.mnemonic = .jmp) (hmode : e.mode = .absolute)
    (h : Bus.Shows bus regs.pc (e.bytes v)) :
    ∃ m : Machine β, step ⟨regs, bus⟩ = .ok e m ∧ m.regs.pc = v := by
  have ha := Mnemonic.action_eq_jump.2 hm
  have hquiet : (e.outcome regs (Bus.peek bus) v).stores = [] := by
    rw [Encoding.outcome, ha]
    rfl
  obtain ⟨next, -, hstep⟩ := step_quiet h hquiet
  refine ⟨_, hstep, ?_⟩
  rw [Encoding.outcome, ha, hmode]
  rfl

/-- A call goes where it says if its pushes are accepted once it was fetched, and fails at one of
them otherwise. -/
theorem step_call (hm : e.mnemonic = .jsr) (h : Bus.Shows bus regs.pc (e.bytes v)) :
    ∃ fetched, Bus.Reads bus fetched ∧
      (Bus.TakesReturn fetched regs.sp (regs.pc + 2) →
        ∃ m : Machine β, step ⟨regs, bus⟩ = .ok e m ∧ m.regs.pc = v) ∧
      (¬Bus.TakesReturn fetched regs.sp (regs.pc + 2) →
        ∃ cell cause m, (cell = stackCell regs.sp ∨ cell = stackCell (regs.sp - 1)) ∧
          step ⟨regs, bus⟩ = .error (.bus cell cause) m) := by
  obtain ⟨fetched, hreads, hstep⟩ := step_eq h
  obtain ⟨aimed, -, hstores, hpc⟩ := e.outcome_call hm regs (Bus.peek bus) v
  rw [hstores] at hstep
  refine ⟨fetched, hreads, ?_, ?_⟩
  · rintro ⟨mid, last, hhigh, hlow⟩
    simp only [Outcome.commit, hhigh, hlow] at hstep
    exact ⟨_, hstep, hpc⟩
  · intro hrefused
    cases hcommit : Outcome.commit (e.outcome regs (Bus.peek bus) v).regs
        [⟨stackCell regs.sp, highByte (regs.pc + 2), aimed⟩,
          ⟨stackCell (regs.sp - 1), lowByte (regs.pc + 2), { aimed with sp := regs.sp - 1 }⟩]
        fetched with
    | ok _ m => exact absurd (Bus.takesReturn_of_commit hcommit) hrefused
    | error t m =>
      rw [hcommit] at hstep
      obtain ⟨s, hs, cause, rfl⟩ := Outcome.trap_of_commit hcommit
      refine ⟨s.addr, cause, m, ?_, hstep⟩
      rcases List.mem_cons.1 hs with rfl | hs
      · exact .inl rfl
      · rw [List.mem_singleton.1 hs]
        exact .inr rfl

end Steps

namespace Program

open Placement

theorem lands_of_build {β : Type} [Bus β] [Storage β] {bus : β} {p : Program}
    {bytes : Array UInt8} (hbuild : p.build false = .ok bytes)
    (hbus : Bus.Shows bus p.origin bytes.toList)
    (hreads : ∀ {next : β}, Bus.Reads bus next → Bus.TakesReturn next = Bus.TakesReturn bus) :
    p.Lands (replay 0 p.items.toList) bus := by
  have hsize := (bytes_of_build hbuild).1
  have hshows {u : Placement} (hu : Exposed (replay 0 p.items.toList) u) :
      ∃ bs, p.encode u.position u.item = .ok bs ∧
        Bus.Shows bus (UInt16.ofNat (p.origin.toNat + u.position)) bs := by
    refine shows_exposed hbuild hu fun i hi => ?_
    have hroom := ((build_exists_iff p).1 ⟨bytes, hbuild⟩ u hu.mem).room
    have hlt := (covers_iff.1 hi).2
    have hget := Bus.shows_iff.1 hbus i (by rw [Array.length_toList]; omega)
    rw [Array.getElem?_toList] at hget
    rw [hget, UInt16.ofNat_add, UInt16.ofNat_toNat]
  constructor
  case branch =>
    intro cursor e name f on regs hu hcondition hpc
    obtain ⟨bs, hbs, hat⟩ := hshows hu
    obtain ⟨addr, d, haddr, rfl, hreach⟩ := encode_branch hbs
    obtain ⟨m, hstep, hm⟩ := step_branch (Mnemonic.action_eq_branch.2 hcondition) (hpc ▸ hat)
    refine ⟨m, hstep, ?_⟩
    rw [hpc, lowByte_toUInt16] at hm
    split
    · rename_i hflag
      rw [hm, if_pos hflag, haddr, hreach]
    · rename_i hflag
      rw [hm, if_neg hflag, UInt16.toNat_add, UInt16.toNat_ofNat', Nat.mod_add_mod]
      rfl
  case jump =>
    intro cursor e name regs hu hm hmode hpc
    obtain ⟨bs, hbs, hat⟩ := hshows hu
    obtain ⟨addr, haddr, rfl⟩ := encode_label hbs
    obtain ⟨m, hstep, hto⟩ := step_jump hm hmode (hpc ▸ hat)
    exact ⟨m, hstep, by rw [hto, haddr]⟩
  case call =>
    intro cursor e name regs hu hm hpc htakes
    obtain ⟨bs, hbs, hat⟩ := hshows hu
    obtain ⟨addr, haddr, rfl⟩ := encode_label hbs
    obtain ⟨fetched, hfetched, hlands, -⟩ := step_call hm (hpc ▸ hat)
    rw [hreads hfetched] at hlands
    obtain ⟨m, hstep, hto⟩ := hlands htakes
    exact ⟨m, hstep, by rw [hto, haddr]⟩
  case refused =>
    intro cursor e name regs hu hm hpc hrefuses
    obtain ⟨bs, hbs, hat⟩ := hshows hu
    obtain ⟨addr, -, rfl⟩ := encode_label hbs
    obtain ⟨fetched, hfetched, -, hrefused⟩ := step_call hm (hpc ▸ hat)
    rw [hreads hfetched] at hrefused
    exact hrefused hrefuses

theorem distance_mark {size : Nat} {calls : List Call} (hc : Call.OriginFirst calls)
    (hlabels : ∀ m ∈ (empty size).marks calls,
      ((empty size).attemptAll calls).origin.toNat + m.2 ≤ 0xFFFF)
    {name : String} {t : Nat} (ht : (name, t) ∈ (empty size).marks calls) :
    ∃ addr, ((empty size).attemptAll calls).address? name = some addr ∧
      ∀ cursor, ((empty size).attemptAll calls).distance addr cursor = (t : Int) - cursor - 2 := by
  refine ⟨_, address?_of_marks hc ht, fun cursor => ?_⟩
  have hle := hlabels _ ht
  rw [distance, UInt16.toNat_ofNat', Nat.mod_eq_of_lt (Nat.lt_succ_of_le hle)]
  omega

/-- With the origin settled first and everything inside the address space: labels count from the
origin, a build fails for a label that is out of reach and reports no other, and what a build
answers takes the processor to its labels, wherever it is loaded at its origin. -/
theorem references_land (size : Nat) (calls : List Call) (hc : Call.OriginFirst calls)
    (hfit : ((empty size).attemptAll calls).origin.toNat + size ≤ 0x10000)
    (hlabels : ∀ m ∈ (empty size).marks calls,
      ((empty size).attemptAll calls).origin.toNat + m.2 ≤ 0xFFFF) :
    let p := (empty size).attemptAll calls
    let us := (empty size).placements calls
    let ms := (empty size).marks calls
    (∀ name addr, p.address? name = some addr ↔
      ∃ t, (name, t) ∈ ms ∧ addr.toNat = p.origin.toNat + t) ∧
    (∀ u ∈ us, ∀ name t, u.item.displaced? = some name → (name, t) ∈ ms →
      ¬ (-128 ≤ (t : Int) - u.position - 2 ∧ (t : Int) - u.position - 2 ≤ 127) →
      ∀ clamp, ∃ e, p.build clamp = .error e) ∧
    (∀ clamp name d, p.build clamp = .error (.branchOutOfRange name d) →
      ∃ u ∈ us, ∃ t, u.item.displaced? = some name ∧ (name, t) ∈ ms ∧
        d = (t : Int) - u.position - 2 ∧ ¬ (-128 ≤ d ∧ d ≤ 127)) ∧
    ∀ bytes, p.build false = .ok bytes →
      (∀ c : Computer, (∀ i < size, c.bus.reader? (p.origin + UInt16.ofNat i) = none) →
        p.Lands us (c.load bytes p.origin).bus) ∧
      ∀ mem : FlatMemory, mem.base ≤ p.origin →
        p.origin.toNat - mem.base.toNat + size ≤ mem.cells.size →
        p.Lands us (mem.load p.origin bytes) := by
  intro p us ms
  have hus : us = replay 0 p.items.toList := placements_empty size calls
  have hsize : p.size = size := size_attemptAll _ _
  refine ⟨fun name addr => address?_iff_marks hc hlabels, ?_, ?_, ?_⟩
  · intro u hu name t hd ht hfar clamp
    cases hb : p.build clamp with
    | error e => exact ⟨e, rfl⟩
    | ok bytes =>
      obtain ⟨b, hlayout, -⟩ := build_ok_iff.1 hb
      rw [layout_eq] at hlayout
      have hplaces := (foldlM_place_ok_iff p.items.toList rfl).1 ⟨b, hlayout⟩ u (hus ▸ hu)
      obtain ⟨addr, haddr, hdistance⟩ := distance_mark hc hlabels ht
      have hnear := hplaces.resolves.near name addr hd haddr
      rw [Near, hdistance] at hnear
      exact absurd hnear hfar
  · intro clamp name d hb
    obtain ⟨u, hu, addr, hd, haddr, rfl, hfar⟩ := build_branchOutOfRange hb
    obtain ⟨t, ht, -⟩ := (address?_iff_marks hc hlabels).1 haddr
    obtain ⟨other, hother, hdistance⟩ := distance_mark hc hlabels ht
    obtain rfl := Option.some.inj (haddr.symm.trans hother)
    exact ⟨u, hus ▸ hu, t, hd, ht, hdistance u.position, hfar⟩
  · intro bytes hbuild
    have hbytes : bytes.size = size := (bytes_of_build hbuild).1.trans hsize
    rw [hus]
    constructor
    · intro c hfree
      exact lands_of_build hbuild (Computer.shows_load (hbytes ▸ hfit) (hbytes ▸ hfree))
        MappedBus.takesReturn_of_reads
    · intro mem hbase hroom
      exact lands_of_build hbuild (FlatMemory.shows_load hbase (hbytes ▸ hroom) (hbytes ▸ hfit))
        FlatMemory.takesReturn_of_reads

def callingLoop : List Call :=
  loopCalls ++ Snippet.call "loop"

def callingImage : Array UInt8 :=
  #[0xC0, 0x10, 0x4C, 0x07, 0x80, 0x70, 0xF9, 0xEA, 0x20, 0x00, 0x80]

def stackOnly : Computer :=
  .withBus (MappedBus.empty.map (.ram 0x200 none) 0x0000) {}

/-- The branch back of the loop, its jump ahead and the call, in a computer with RAM for a stack. -/
theorem references_land_loop :
    ((empty 11).attemptAll callingLoop).build false = .ok callingImage ∧
      (∃ m, step ⟨{ Registers.atReset 0x8005 with status := Status.clear.set .overflow true },
          (stackOnly.load callingImage 0x8000).bus⟩ = .ok (.of .bvs .relative) m ∧
        m.regs.pc = 0x8000) ∧
      (∃ m, step ⟨.atReset 0x8002, (stackOnly.load callingImage 0x8000).bus⟩ =
          .ok (.of .jmp .absolute) m ∧
        m.regs.pc = 0x8007) ∧
      ∃ m, step ⟨.atReset 0x8008, (stackOnly.load callingImage 0x8000).bus⟩ =
          .ok (.of .jsr .absolute) m ∧
        m.regs.pc = 0x8000 := by
  obtain ⟨haddress, -, -, hlands⟩ := references_land 11 callingLoop (by decide +kernel)
    (by decide +kernel) (by decide +kernel)
  have horigin : ((empty 11).attemptAll callingLoop).origin = 0x8000 := by decide +kernel
  have hloop := (haddress "loop" 0x8000).2 ⟨0, by decide +kernel, by rw [horigin]; rfl⟩
  have hend := (haddress "end" 0x8007).2 ⟨7, by decide +kernel, by rw [horigin]; rfl⟩
  have hexposed {u : Placement} {n : Nat}
      (hu : (empty 11).placements callingLoop = ((empty 11).placements callingLoop).take n ++
        u :: ((empty 11).placements callingLoop).drop (n + 1))
      (hbehind : ∀ v ∈ ((empty 11).placements callingLoop).drop (n + 1), u.stop ≤ v.position) :
      Exposed ((empty 11).placements callingLoop) u :=
    ⟨_, _, hu, fun v hv _ hi => covers_of_behind (hbehind v hv) hi⟩
  have hb : ((empty 11).attemptAll callingLoop).build false = .ok callingImage := by
    decide +kernel
  have hl := (hlands callingImage hb).1 stackOnly (by rw [horigin]; decide +kernel)
  rw [horigin] at hl
  refine ⟨hb, ?_, ?_, ?_⟩
  · obtain ⟨m, hstep, hpc⟩ := hl.branch 5 (.of .bvs .relative) "loop" .overflow true
      { Registers.atReset 0x8005 with status := Status.clear.set .overflow true }
      (hexposed (n := 2) (by decide +kernel) (by decide +kernel)) (by decide +kernel)
      (by rw [horigin]; rfl)
    rw [if_pos (by decide), hloop] at hpc
    exact ⟨m, hstep, (Option.some.inj hpc).symm⟩
  · obtain ⟨m, hstep, hpc⟩ := hl.jump 2 (.of .jmp .absolute) "end" (.atReset 0x8002)
      (hexposed (n := 1) (by decide +kernel) (by decide +kernel)) (by decide +kernel)
      (by decide +kernel) (by rw [horigin]; rfl)
    rw [hend] at hpc
    exact ⟨m, hstep, (Option.some.inj hpc).symm⟩
  · have htakes : Bus.TakesReturn (stackOnly.load callingImage 0x8000).bus 0x00 0x800A :=
      MappedBus.takesReturn_iff.2 (by decide +kernel)
    obtain ⟨m, hstep, hpc⟩ := hl.call 8 (.of .jsr .absolute) "loop" (.atReset 0x8008)
      (hexposed (n := 4) (by decide +kernel) (by decide +kernel)) (by decide +kernel)
      (by rw [horigin]; rfl) htakes
    rw [hloop] at hpc
    exact ⟨m, hstep, (Option.some.inj hpc).symm⟩

end Program

end M6502
