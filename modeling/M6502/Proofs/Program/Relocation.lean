import M6502.Proofs.InstructionSet.Table
import M6502.Proofs.Program.Rebasing

/-!
# Relocation

A program that is written at another origin builds to the same bytes, except
for the addresses of labels that it holds, as long as no displacement crosses
the end of the address space at one of the origins alone: addresses wrap
there, and distances are counted from an origin and a position that do not.
-/

set_option autoImplicit false

namespace M6502

def Item.field? : Item → Nat → Option (String × Nat)
  | .instruction ⟨_, .label name⟩, k + 1 => some (name, k)
  | .data (.label name), k => some (name, k)
  | _, _ => none

theorem Item.isUnit_of_displaced? {item : Item} {name : String} (h : item.displaced? = some name) :
    item.isUnit = true := by
  cases item with
  | seek target => contradiction
  | instruction i => rfl
  | data d => rfl

namespace Program

open Placement

def Level (p q : Program) (name : String) : Prop :=
  ∀ addr, p.address? name = some addr → ∀ cursor,
    q.distance (addr + p.shift q) cursor = p.distance addr cursor

def MovedByte (p : Program) (shift : UInt16) (field : Option (String × Nat)) (b c : UInt8) :
    Prop :=
  match field with
  | none => c = b
  | some (name, j) => ∃ addr, p.address? name = some addr ∧
      [lowByte addr, highByte addr][j]? = some b ∧
      [lowByte (addr + shift), highByte (addr + shift)][j]? = some c

structure MovedItem (p : Program) (shift : UInt16) (item : Item) (bs cs : List UInt8) : Prop where
  length_eq : cs.length = bs.length
  byte : ∀ k b c, bs[k]? = some b → cs[k]? = some c → p.MovedByte shift (item.field? k) b c

theorem MovedItem.same {p : Program} {shift : UInt16} {item : Item}
    (h : ∀ k, item.field? k = none) (bs : List UInt8) : p.MovedItem shift item bs bs where
  length_eq := rfl
  byte k b c hb hc := by
    rw [h k]
    exact Option.some.inj (hc.symm.trans hb)

namespace Rebased

variable {p q : Program}

theorem resolve (h : Rebased p q) (name : String) :
    Corresponds (fun a b => p.address? name = some a ∧ b = a + p.shift q) (p.resolve name)
      (q.resolve name) := by
  unfold Program.resolve
  rw [h.address?_eq]
  cases p.address? name with
  | none => exact .error _
  | some addr => exact .ok ⟨rfl, rfl⟩

theorem displacement (h : Rebased p q) {name : String} (hl : p.Level q name) (cursor : Nat) :
    q.displacement name cursor = p.displacement name cursor := by
  unfold Program.displacement Program.resolve
  rw [h.address?_eq]
  cases ha : p.address? name with
  | none => rfl
  | some addr =>
    show (if -128 ≤ q.distance (addr + p.shift q) cursor ∧ _ then _ else _ : Except _ _) = _
    rw [hl addr ha cursor]
    rfl

theorem encode (h : Rebased p q) {item : Item}
    (hl : ∀ name, item.displaced? = some name → p.Level q name) (cursor : Nat) :
    Corresponds (p.MovedItem (p.shift q) item) (p.encode cursor item) (q.encode cursor item) := by
  cases item with
  | instruction i =>
    obtain ⟨e, operand⟩ := i
    cases operand with
    | none => exact .of_eq rfl (.same fun _ => rfl)
    | value v => exact .of_eq rfl (.same fun _ => rfl)
    | label name =>
      refine (h.resolve name).bind fun a b hab => .ok ?_
      obtain ⟨ha, rfl⟩ := hab
      refine ⟨by rw [List.length_take, List.length_take]; rfl, fun k b c hb hc => ?_⟩
      rw [List.getElem?_take] at hb hc
      split at hb
      · rename_i hk
        rw [if_pos hk] at hc
        cases k with
        | zero => exact Option.some.inj (hc.symm.trans hb)
        | succ k => exact ⟨a, ha, hb, hc⟩
      · contradiction
    | displacement name =>
      refine .of_eq ?_ (.same fun _ => rfl)
      rw [Program.encode, Program.encode, operandWord, operandWord, h.displacement (hl name rfl)]
  | data d =>
    cases d with
    | bytes bs => exact .of_eq rfl (.same fun _ => rfl)
    | label name =>
      refine (h.resolve name).bind fun a b hab => .ok ?_
      obtain ⟨ha, rfl⟩ := hab
      exact ⟨rfl, fun k b c hb hc => ⟨a, ha, hb, hc⟩⟩
    | displacement name =>
      refine .of_eq ?_ (.same fun _ => rfl)
      rw [Program.encode, Program.encode, h.displacement (hl name rfl)]
  | seek target => exact .of_eq rfl (.same fun _ => rfl)

theorem place (h : Rebased p q) {item : Item}
    (hl : ∀ name, item.displaced? = some name → p.Level q name) {b c : Block}
    (hcursor : c.cursor = b.cursor) (hsize : c.size = b.size) :
    Corresponds (fun b' c' => c'.cursor = b'.cursor ∧ c'.size = b'.size) (p.place b item)
      (q.place c item) := by
  cases hu : item.isUnit with
  | false =>
    cases item with
    | seek target => exact .ok ⟨rfl, hsize⟩
    | instruction i => contradiction
    | data d => contradiction
  | true =>
    rw [place_unit hu, place_unit hu, hcursor]
    refine (h.encode hl b.cursor).bind fun bs cs hmoved => ?_
    simp only [Block.emit, hcursor, hsize, hmoved.length_eq]
    split
    · exact .ok ⟨rfl, rfl⟩
    · exact .error _

theorem foldlM_place (h : Rebased p q) {items : List Item}
    (hl : ∀ item ∈ items, ∀ name, item.displaced? = some name → p.Level q name) {b c : Block}
    (hcursor : c.cursor = b.cursor) (hsize : c.size = b.size) :
    Corresponds (fun b' c' => c'.cursor = b'.cursor ∧ c'.size = b'.size)
      (items.foldlM p.place b) (items.foldlM q.place c) := by
  induction items generalizing b c with
  | nil => exact .ok ⟨hcursor, hsize⟩
  | cons item items ih =>
    rw [List.forall_mem_cons] at hl
    rw [List.foldlM_cons, List.foldlM_cons]
    exact (h.place hl.1 hcursor hsize).bind fun b' c' hnext => ih hl.2 hnext.1 hnext.2

theorem layout (h : Rebased p q)
    (hl : ∀ item ∈ p.items.toList, ∀ name, item.displaced? = some name → p.Level q name) :
    Corresponds (fun b c => c.cursor = b.cursor ∧ c.size = b.size) p.layout q.layout := by
  rw [layout_eq, layout_eq, h.items_eq, h.size_eq]
  exact h.foldlM_place hl rfl rfl

end Rebased

def fieldAt? (p : Program) (i : Nat) : Option (String × Nat) :=
  (lastOver (replay 0 p.items.toList) i).bind fun u => u.item.field? (i - u.position)

structure Moved (p : Program) (shift : UInt16) (bytes moved : Array UInt8) : Prop where
  size_eq : moved.size = bytes.size
  byte : ∀ i b c, bytes[i]? = some b → moved[i]? = some c → p.MovedByte shift (p.fieldAt? i) b c

theorem Moved.take {p : Program} {shift : UInt16} {bytes moved : Array UInt8}
    (h : p.Moved shift bytes moved) (n : Nat) : p.Moved shift (bytes.take n) (moved.take n) where
  size_eq := by simp only [Array.take_eq_extract, Array.size_extract, h.size_eq]
  byte i b c hb hc := by
    rw [Array.take_eq_extract, Array.getElem?_extract] at hb hc
    split at hb
    · rename_i hi
      rw [h.size_eq, if_pos hi] at hc
      rw [Nat.zero_add] at hb hc
      exact h.byte i b c hb hc
    · contradiction

namespace Rebased

variable {p q : Program}

theorem moved (h : Rebased p q)
    (hl : ∀ item ∈ p.items.toList, ∀ name, item.displaced? = some name → p.Level q name)
    {bytes moved : Array UInt8} (hp : p.build false = .ok bytes) (hq : q.build false = .ok moved) :
    p.Moved (p.shift q) bytes moved := by
  obtain ⟨hsize, hbytes⟩ := bytes_of_build hp
  obtain ⟨hsize', hmoved⟩ := bytes_of_build hq
  rw [h.size_eq, h.items_eq] at hmoved
  refine ⟨by rw [hsize', hsize, h.size_eq], fun i b c hb hc => ?_⟩
  have hi : i < p.size := by
    rw [← hsize]
    exact (Array.getElem?_eq_some_iff.1 hb).1
  obtain ⟨b', hb', hshows⟩ := hbytes i hi
  obtain ⟨c', hc', hshows'⟩ := hmoved i hi
  obtain rfl := Option.some.inj (hb.symm.trans hb')
  obtain rfl := Option.some.inj (hc.symm.trans hc')
  unfold Shows at hshows hshows'
  unfold fieldAt?
  cases hlast : lastOver (replay 0 p.items.toList) i with
  | none =>
    rw [hlast] at hshows hshows'
    exact hshows'.trans hshows.symm
  | some u =>
    rw [hlast] at hshows hshows'
    obtain ⟨bs, hbs, hbyte⟩ := hshows
    obtain ⟨cs, hcs, hbyte'⟩ := hshows'
    have hencode := h.encode (hl u.item (item_of_mem_replay (mem_of_lastOver hlast))) u.position
    rw [hbs, hcs] at hencode
    cases hencode with
    | ok hitem => exact hitem.byte _ b c hbyte hbyte'

theorem build (h : Rebased p q)
    (hl : ∀ item ∈ p.items.toList, ∀ name, item.displaced? = some name → p.Level q name)
    (clamp : Bool) : Corresponds (p.Moved (p.shift q)) (p.build clamp) (q.build clamp) := by
  have hwhole : Corresponds (p.Moved (p.shift q)) (p.build false) (q.build false) := by
    have hmoved := @h.moved _ _ hl
    have hlayout := h.layout hl
    unfold Program.build at hmoved ⊢
    generalize p.layout = x at hlayout hmoved ⊢
    generalize q.layout = y at hlayout hmoved ⊢
    cases hlayout with
    | ok _ => exact .ok (hmoved rfl rfl)
    | error e => exact .error e
  cases clamp with
  | false => exact hwhole
  | true =>
    rw [build_clamped, build_clamped, h.items_eq, h.size_eq]
    exact hwhole.map fun _ _ hmoved => hmoved.take _

end Rebased

/-- Wherever a displacement leads, the addresses have wrapped as often behind both origins. -/
def WrapAlike (o₁ o₂ : UInt16) (marks : List (String × Nat)) (items : List Item) : Prop :=
  ∀ item ∈ items, ∀ m ∈ marks, item.displaced? = some m.1 →
    (o₁.toNat + m.2) / 0x10000 = (o₂.toNat + m.2) / 0x10000

instance (o₁ o₂ : UInt16) (marks : List (String × Nat)) (items : List Item) :
    Decidable (WrapAlike o₁ o₂ marks items) :=
  inferInstanceAs (Decidable (∀ item ∈ items, ∀ m ∈ marks, _ → _))

def written (size : Nat) (o : UInt16) (calls : List Call) : Program :=
  ((empty size).setOrigin o).attemptAll calls

section Written

variable (size : Nat) {calls : List Call} (hcalls : ∀ c ∈ calls, c.isRelocatable = true)
  (o₁ o₂ o : UInt16)
include hcalls

theorem rebased_written : Rebased (written size o₁ calls) (written size o₂ calls) :=
  (Rebased.setOrigin size o₁ o₂).attemptAll hcalls

theorem marks_written : ((empty size).setOrigin o).marks calls = (empty size).marks calls :=
  (Rebased.setOrigin size 0 o).marks_eq hcalls

theorem origin_written : (written size o calls).origin = o :=
  origin_attemptAll (fun c hc => Call.setsOrigin_of_relocatable (hcalls c hc)) _

theorem shift_written : (written size o₁ calls).shift (written size o₂ calls) = o₂ - o₁ := by
  rw [shift, origin_written size hcalls, origin_written size hcalls]

theorem address?_written {name : String} {t : Nat} (h : (name, t) ∈ (empty size).marks calls) :
    (written size o calls).address? name = some (UInt16.ofNat (o.toNat + t)) := by
  have hfirst : Call.OriginFirst calls := List.pairwise_iff_getElem.2 fun _ _ _ hj _ _ =>
    Call.setsOrigin_of_relocatable (hcalls _ (List.getElem_mem hj))
  rw [← marks_written size hcalls o] at h
  have hplace := address?_of_marks hfirst h
  rw [← written, origin_written size hcalls o] at hplace
  exact hplace

theorem mark_of_written {name : String} {addr : UInt16}
    (h : (written size o calls).address? name = some addr) :
    ∃ t, (name, t) ∈ (empty size).marks calls := by
  rcases marks_of_address? h with hbefore | ⟨t, ht⟩
  · have hnone : ((empty size).setOrigin o).address? name = none := address?_empty size name
    rw [hnone] at hbefore
    contradiction
  · exact ⟨t, marks_written size hcalls o ▸ ht⟩

theorem distance_written (t cursor : Nat) :
    (written size o calls).distance (UInt16.ofNat (o.toNat + t)) cursor =
      (t : Int) - cursor - 2 - 0x10000 * ((o.toNat + t) / 0x10000 : Nat) := by
  rw [distance, origin_written size hcalls, UInt16.toNat_ofNat']
  omega

theorem level_of_wrapAlike {name : String}
    (h : ∀ t, (name, t) ∈ (empty size).marks calls →
      (o₁.toNat + t) / 0x10000 = (o₂.toNat + t) / 0x10000) :
    (written size o₁ calls).Level (written size o₂ calls) name := by
  intro addr haddr cursor
  obtain ⟨t, ht⟩ := mark_of_written size hcalls o₁ haddr
  have hplace := (rebased_written size hcalls o₁ o₂).address?_eq name
  rw [address?_written size hcalls o₂ ht, haddr, Option.map_some, Option.some.injEq] at hplace
  rw [address?_written size hcalls o₁ ht, Option.some.injEq] at haddr
  rw [← hplace, ← haddr, distance_written size hcalls, distance_written size hcalls, h t ht]

/-- A program that builds at both origins has no displacement that tells them apart. -/
theorem wrapAlike_of_build
    (h₁ : ∀ u ∈ replay 0 (written size o₁ calls).items.toList, (written size o₁ calls).Places u)
    (h₂ : ∀ u ∈ replay 0 (written size o₁ calls).items.toList, (written size o₂ calls).Places u) :
    WrapAlike o₁ o₂ ((empty size).marks calls) (written size o₁ calls).items.toList := by
  rintro item hitem ⟨name, t⟩ hmark hdisplaced
  obtain ⟨cursor, hu⟩ := mem_replay_of_item hitem (Item.isUnit_of_displaced? hdisplaced) 0
  have hnear₁ := (h₁ _ hu).resolves.near name _ hdisplaced (address?_written size hcalls o₁ hmark)
  have hnear₂ := (h₂ _ hu).resolves.near name _ hdisplaced (address?_written size hcalls o₂ hmark)
  rw [Near, distance_written size hcalls] at hnear₁ hnear₂
  omega

end Written

/-- A program without seeks is the same at every origin except for the addresses of labels that it
holds, as long as none of its displacements crosses the end of the address space at one origin
alone. One that builds at the first origin builds at the second one in no other case. -/
theorem relocation (size : Nat) (calls : List Call) (hcalls : ∀ c ∈ calls, c.isRelocatable = true)
    (o₁ o₂ : UInt16) :
    let p := written size o₁ calls
    let q := written size o₂ calls
    let Alike := WrapAlike o₁ o₂ ((empty size).marks calls) p.items.toList
    q.position = p.position ∧
      (Alike → ∀ clamp, Corresponds (p.Moved (o₂ - o₁)) (p.build clamp) (q.build clamp)) ∧
      ((∃ bytes, p.build false = .ok bytes) → ((∃ bytes, q.build false = .ok bytes) ↔ Alike)) := by
  have h := rebased_written size hcalls o₁ o₂
  have hbuild (halike : WrapAlike o₁ o₂ ((empty size).marks calls)
      (written size o₁ calls).items.toList) (clamp : Bool) :
      Corresponds ((written size o₁ calls).Moved (o₂ - o₁)) ((written size o₁ calls).build clamp)
        ((written size o₂ calls).build clamp) := by
    rw [← shift_written size hcalls o₁ o₂]
    exact h.build (fun item hitem name hdisplaced => level_of_wrapAlike size hcalls o₁ o₂
      fun t ht => halike item hitem (name, t) ht hdisplaced) clamp
  refine ⟨h.position_eq, hbuild, fun ⟨bytes, hp⟩ => ⟨fun hq => ?_, fun halike => ?_⟩⟩
  · rw [build_exists_iff, h.items_eq] at hq
    exact wrapAlike_of_build size hcalls o₁ o₂ ((build_exists_iff _).1 ⟨bytes, hp⟩) hq
  · obtain ⟨moved, hq, -⟩ := (hbuild halike false).answer hp
    exact ⟨moved, hq⟩

/-- A loop, a jump back to it and its address, at two origins. -/
theorem relocation_loop :
    let calls : List Call := [.setLabel "loop", .instruct (.of .dex .implied) .none,
      .instruct (.of .bne .relative) (.displacement "loop"),
      .instruct (.of .jmp .absolute) (.label "loop"), .putLabel "loop"]
    Corresponds ((written 16 0x8000 calls).Moved 0x4000) ((written 16 0x8000 calls).build true)
        ((written 16 0xC000 calls).build true) ∧
      ∃ bytes, (written 16 0xC000 calls).build false = .ok bytes := by
  intro calls
  obtain ⟨-, hbuild, hbuilds⟩ := relocation 16 calls (by decide) 0x8000 0xC000
  have halike : WrapAlike 0x8000 0xC000 ((empty 16).marks calls)
      (written 16 0x8000 calls).items.toList := by
    decide +kernel
  have hfirst : (written 16 0x8000 calls).build false = .ok
      #[0xCA, 0xD0, 0xFD, 0x4C, 0x00, 0x80, 0x00, 0x80, 0, 0, 0, 0, 0, 0, 0, 0] := by
    decide +kernel
  exact ⟨hbuild halike true, (hbuilds ⟨_, hfirst⟩).2 halike⟩

/-- A branch over an instruction is refused where it leads over the end of the address space. -/
theorem relocation_skip :
    let calls : List Call := [.instruct (.of .beq .relative) (.displacement "skip"),
      .instruct (.of .ldx .immediate) (.value 9), .setLabel "skip"]
    (written 16 0 calls).build true = .ok #[0xF0, 0x02, 0xA2, 0x09] ∧
      (written 16 0xFFFC calls).build true = .error (.branchOutOfRange "skip" (-65534)) := by
  decide +kernel

end Program

end M6502
