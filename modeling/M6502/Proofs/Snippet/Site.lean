import M6502.Proofs.Processor.Runs
import M6502.Proofs.Program.Landing

/-!
# Where snippets stand

A snippet is written behind the calls of a program and stays as long as no
later call writes over it. Its instructions then follow one another in
memory, each with the operand that its labels resolve to.
-/

set_option autoImplicit false

namespace M6502

def Call.isCode : Call → Bool
  | .instruct _ _ | .setLabel _ | .mint => true
  | _ => false

namespace Snippet

def laid (position : Nat) : List Call → List Placement
  | [] => []
  | .instruct e operand :: calls =>
    ⟨position, .instruction ⟨e, operand⟩⟩ :: laid (position + e.size) calls
  | _ :: calls => laid position calls

def labelled (position : Nat) : List Call → List (String × Nat)
  | [] => []
  | .setLabel name :: calls => (name, position) :: labelled position calls
  | .instruct e _ :: calls => labelled (position + e.size) calls
  | _ :: calls => labelled position calls

def halting (code : List Call) : List Call :=
  code ++ [.instruct (.of .brk .implied) .none]

end Snippet

namespace Program

open Placement Snippet

theorem perform_cons_ok {p q : Program} {c : Call} {calls : List Call}
    (h : p.perform (c :: calls) = (.ok (), q)) :
    ∃ next, c.apply p = .ok next ∧ next.perform calls = (.ok (), q) := by
  rw [perform] at h
  split at h
  · rename_i next hc
    exact ⟨next, hc, h⟩
  · cases h

theorem attemptAll_of_perform {p q : Program} {calls : List Call}
    (h : p.perform calls = (.ok (), q)) : p.attemptAll calls = q := by
  induction calls generalizing p with
  | nil =>
    cases h
    rfl
  | cons c calls ih =>
    obtain ⟨next, hc, hrest⟩ := perform_cons_ok h
    have hall := ih hrest
    rw [← attempt_of_ok hc] at hall
    exact hall

theorem placements_append (p : Program) (cs ds : List Call) :
    p.placements (cs ++ ds) = p.placements cs ++ (p.attemptAll cs).placements ds := by
  induction cs generalizing p with
  | nil => rfl
  | cons c cs ih =>
    rw [List.cons_append, placements, ih, placements, List.append_assoc]
    rfl

theorem placed_instruct {p q : Program} {e : Encoding} {operand : Operand}
    (h : Call.apply p (.instruct e operand) = .ok q) :
    p.placed (.instruct e operand) = [⟨p.position, .instruction ⟨e, operand⟩⟩] := by
  rw [placed, attempt_of_ok h, instruct_ok h]
  show (((p.items.push _).toList.drop p.items.size).filter Item.isUnit).map _ = _
  rw [Array.toList_push, ← Array.length_toList, List.drop_left]
  rfl

theorem placed_of_items {p q : Program} {c : Call} (h : c.apply p = .ok q)
    (hi : q.items = p.items) : p.placed c = [] := by
  rw [placed, attempt_of_ok h, hi, ← Array.length_toList, List.drop_length]
  rfl

structure Laid (p q : Program) (calls : List Call) : Prop where
  placements_eq : p.placements calls = laid p.position calls
  inside : ∀ u ∈ laid p.position calls, p.position ≤ u.position ∧ u.stop ≤ q.position
  ascending : (laid p.position calls).Pairwise fun u v => u.stop ≤ v.position
  ahead : p.position ≤ q.position
  address : ∀ name t, (name, t) ∈ labelled p.position calls →
    q.address? name = some (UInt16.ofNat (p.origin.toNat + t))
  label_le : ∀ name t, (name, t) ∈ labelled p.position calls → t ≤ q.position

theorem laid_of_perform {p q : Program} {calls : List Call}
    (hcode : ∀ c ∈ calls, c.isCode = true) (h : p.perform calls = (.ok (), q)) :
    p.Laid q calls := by
  induction calls generalizing p with
  | nil =>
    cases h
    exact ⟨rfl, fun _ hu => absurd hu List.not_mem_nil, .nil, Nat.le_refl _,
      fun _ _ ht => absurd ht List.not_mem_nil, fun _ _ ht => absurd ht List.not_mem_nil⟩
  | cons c calls ih =>
    rw [List.forall_mem_cons] at hcode
    obtain ⟨next, hc, hrest⟩ := perform_cons_ok h
    have hl := ih hcode.2 hrest
    have hplacements : p.placements (c :: calls) = p.placed c ++ next.placements calls := by
      rw [placements, attempt_of_ok hc]
    cases c with
    | instruct e operand =>
      have hplaced := placed_instruct hc
      have hn := instruct_ok hc
      have hpos : next.position = p.position + e.size := by rw [hn]; rfl
      have horigin : next.origin = p.origin := by rw [hn]; rfl
      obtain ⟨hp, hi, hu, ha, hd, ht⟩ := hl
      rw [hpos] at hp hi hu ha hd ht
      rw [horigin] at hd
      refine ⟨?_, ?_, ?_, ?_, hd, ht⟩
      · rw [hplacements, hplaced, hp]
        rfl
      · rw [laid, List.forall_mem_cons]
        refine ⟨⟨Nat.le_refl _, ha⟩, fun u hmem => ?_⟩
        have hbounds := hi u hmem
        omega
      · rw [laid, List.pairwise_cons]
        exact ⟨fun u hmem => (hi u hmem).1, hu⟩
      · omega
    | setLabel name =>
      obtain ⟨hnone, rfl⟩ := setLabel_ok hc
      have hplaced := placed_of_items hc rfl
      refine ⟨?_, hl.inside, hl.ascending, hl.ahead, ?_, ?_⟩
      · rw [hplacements, hplaced, hl.placements_eq]
        rfl
      · intro other t ht
        rcases List.mem_cons.1 ht with ht | ht
        · cases ht
          rw [← attemptAll_of_perform hrest]
          refine address?_attemptAll _ _ ?_
          rw [address?_setLabel hc, if_pos rfl]
          rfl
        · exact hl.address other t ht
      · intro other t ht
        rcases List.mem_cons.1 ht with ht | ht
        · cases ht
          exact hl.ahead
        · exact hl.label_le other t ht
    | mint =>
      obtain rfl := Except.ok.inj hc
      have hplaced := placed_of_items hc rfl
      refine ⟨?_, hl.inside, hl.ascending, hl.ahead, hl.address, hl.label_le⟩
      rw [hplacements, hplaced, hl.placements_eq]
      rfl
    | _ => exact absurd hcode.1 Bool.false_ne_true

end Program

structure Site where
  size : Nat
  before : List Call
  after : List Call

namespace Site

open Program Placement Snippet

def start (s : Site) : Program :=
  (empty s.size).attemptAll s.before

def stop (s : Site) (code : List Call) : Program :=
  s.start.attemptAll code

def final (s : Site) (code : List Call) : Program :=
  (s.stop code).attemptAll s.after

def addr (s : Site) (position : Nat) : UInt16 :=
  UInt16.ofNat (s.start.origin.toNat + position)

/-- The code stands at the site, and what it was built into shows on the bus there. -/
structure Holds {β : Type} [Bus β] (s : Site) (code : List Call) (bus : β) : Prop where
  written : (s.start.perform code).1 = .ok ()
  settled : (s.final code).origin = s.start.origin
  intact : ∀ u ∈ (s.stop code).placements s.after, ∀ i, s.start.position ≤ i →
    i < (s.stop code).position → u.covers i = false
  loaded : ∃ clamp bytes, (s.final code).build clamp = .ok bytes ∧
    ∀ i, s.start.position ≤ i → i < (s.stop code).position →
      bytes[i]? = some (Bus.peek bus (s.addr i))

theorem addr_add (s : Site) (i k : Nat) : s.addr i + UInt16.ofNat k = s.addr (i + k) := by
  rw [addr, addr, ← UInt16.ofNat_add, Nat.add_assoc]

variable {β : Type} [Bus β] {s : Site} {code : List Call} {bus : β}

/-- Code that was written and stays holds wherever a bus shows what it was built into. -/
theorem holds_of_shows (hwritten : (s.start.perform code).1 = .ok ())
    (hsettled : (s.final code).origin = s.start.origin)
    (hintact : ∀ u ∈ (s.stop code).placements s.after, ∀ i, s.start.position ≤ i →
      i < (s.stop code).position → u.covers i = false)
    {clamp : Bool} {bytes : Array UInt8} (hbuild : (s.final code).build clamp = .ok bytes)
    (hroom : (s.stop code).position ≤ bytes.size)
    (hbus : Bus.Shows bus s.start.origin bytes.toList) : s.Holds code bus := by
  refine ⟨hwritten, hsettled, hintact, clamp, bytes, hbuild, fun i _ hi => ?_⟩
  have hget := Bus.shows_iff.1 hbus i (by rw [Array.length_toList]; omega)
  rw [Array.getElem?_toList] at hget
  rw [hget, addr, UInt16.ofNat_add, UInt16.ofNat_toNat]

theorem Holds.laid (h : s.Holds code bus) (hcode : ∀ c ∈ code, c.isCode = true) :
    s.start.Laid (s.stop code) code := by
  have hp : s.start.perform code = (.ok (), (s.start.perform code).2) := Prod.ext h.written rfl
  rw [stop, attemptAll_of_perform hp]
  exact laid_of_perform hcode hp

theorem exposed_of_laid (h : s.Holds code bus) (hcode : ∀ c ∈ code, c.isCode = true)
    {u : Placement} (hu : u ∈ Snippet.laid s.start.position code) :
    Exposed (replay 0 (s.final code).items.toList) u := by
  have hl := h.laid hcode
  obtain ⟨front, back, hsplit⟩ := List.append_of_mem hu
  have hascending := hl.ascending
  rw [hsplit, List.pairwise_append, List.pairwise_cons] at hascending
  obtain ⟨hfrom, hto⟩ := hl.inside u hu
  refine ⟨(empty s.size).placements s.before ++ front,
    back ++ (s.stop code).placements s.after, ?_, ?_⟩
  · have hall := placements_empty s.size (s.before ++ (code ++ s.after))
    rw [attemptAll_append, attemptAll_append, placements_append, placements_append] at hall
    show replay 0 (((((empty s.size).attemptAll s.before).attemptAll code).attemptAll
      s.after).items.toList) = _
    rw [← hall, ← start, hl.placements_eq, hsplit, List.append_assoc, List.append_assoc,
      List.cons_append]
    rfl
  · intro v hv i hi
    rcases List.mem_append.1 hv with hv | hv
    · exact covers_of_behind (hascending.2.1.1 v hv) hi
    · have hbounds := covers_iff.1 hi
      exact h.intact v hv i (by omega) (by omega)

theorem Holds.shows (h : s.Holds code bus) (hcode : ∀ c ∈ code, c.isCode = true)
    {u : Placement} (hu : u ∈ Snippet.laid s.start.position code) :
    ∃ bs, (s.final code).encode u.position u.item = .ok bs ∧
      Bus.Shows bus (s.addr u.position) bs := by
  have hl := h.laid hcode
  obtain ⟨hfrom, hto⟩ := hl.inside u hu
  obtain ⟨clamp, bytes, hbuild, hbytes⟩ := h.loaded
  obtain ⟨whole, hwhole, hfront⟩ := build_front hbuild
  rw [addr, ← h.settled]
  refine shows_exposed hwhole (exposed_of_laid h hcode hu) fun i hi => ?_
  have hbounds := covers_iff.1 hi
  rw [h.settled]
  exact hfront i _ (hbytes i (by omega) (by omega))

theorem Holds.address (h : s.Holds code bus) (hcode : ∀ c ∈ code, c.isCode = true)
    {name : String} {t : Nat} (ht : (name, t) ∈ labelled s.start.position code) :
    (s.final code).address? name = some (s.addr t) :=
  address?_attemptAll _ _ ((h.laid hcode).address name t ht)

theorem Holds.branch (h : s.Holds code bus) (hcode : ∀ c ∈ code, c.isCode = true) {e : Encoding}
    {name : String} {k t : Nat}
    (hu : ⟨s.start.position + k, .instruction ⟨e, .displacement name⟩⟩ ∈
      Snippet.laid s.start.position code)
    (ht : (name, s.start.position + t) ∈ labelled s.start.position code) :
    ∃ d, (s.final code).encode (s.start.position + k) (.instruction ⟨e, .displacement name⟩) =
        .ok (e.bytes (UInt8.toUInt16 d)) ∧
      s.addr s.start.position + UInt16.ofNat (k + 2) + signExtend d =
        s.addr s.start.position + UInt16.ofNat t := by
  obtain ⟨bs, hbs, -⟩ := h.shows hcode hu
  obtain ⟨addr, d, haddr, rfl, hreach⟩ := encode_branch hbs
  refine ⟨d, hbs, ?_⟩
  rw [h.address hcode ht, Option.some.injEq] at haddr
  rw [addr_add, addr_add, haddr, ← hreach, h.settled, ← Nat.add_assoc, ← addr_add]
  rfl

/-- Code at its site is a workspace, when what it writes lies in cells outside of it. -/
theorem Holds.workspace [Storage β] (h : s.Holds code bus)
    (hcode : ∀ c ∈ code, c.isCode = true) {ops : List Op}
    (hops : ∀ op ∈ ops, ∃ e operand, op.encoding? = some e ∧
      ⟨s.start.position + op.offset, .instruction ⟨e, operand⟩⟩ ∈
        Snippet.laid s.start.position code ∧
      (s.final code).encode (s.start.position + op.offset)
        (.instruction ⟨e, operand⟩) = .ok (e.bytes op.word))
    {own : UInt16 → Prop} (hcells : ∀ a, own a → Storage.Cell bus a)
    (hapart : ∀ i, s.start.position ≤ i → i < (s.stop code).position → ¬ own (s.addr i)) :
    Workspace (s.addr s.start.position) ops own (Bus.peek bus) bus where
  shows op hop e he := by
    obtain ⟨d, operand, hd, hu, hencode⟩ := hops op hop
    obtain rfl : d = e := Option.some.inj (hd.symm.trans he)
    obtain ⟨bs, hbs, hshows⟩ := h.shows hcode hu
    obtain rfl := Except.ok.inj (hencode.symm.trans hbs)
    rw [Op.addr, addr_add]
    exact hshows
  apart op hop e he i hi := by
    obtain ⟨d, operand, hd, hu, -⟩ := hops op hop
    obtain rfl : d = e := Option.some.inj (hd.symm.trans he)
    obtain ⟨hfrom, hto⟩ := (h.laid hcode).inside _ hu
    have hto : s.start.position + op.offset + d.size ≤ (s.stop code).position := hto
    rw [Op.addr, addr_add, addr_add]
    exact hapart _ (by omega) (by omega)
  cells := hcells
  others _ _ := rfl

end Site

def board (ram image : Array UInt8) : MappedBus :=
  (MappedBus.empty.map ⟨ram, .ram none⟩ 0).map (.rom image) 0x8000

theorem board_cell {ram image : Array UInt8} (hram : ram.size ≤ 0x8000) {addr : UInt16}
    (h : addr.toNat < ram.size) : Storage.Cell (board ram image) addr := by
  have hstop : min ((0 : UInt16).toNat + ram.size) 0x10000 = ram.size := by
    rw [UInt16.toNat_zero]
    omega
  have hbindings : (board ram image).bindings =
      [⟨0, 0, ram.size, 0⟩,
        ⟨1, 0x8000, min ((0x8000 : UInt16).toNat + image.size) 0x10000, 0x8000⟩] := by
    rw [← hstop]
    rfl
  have hhigh : (0x8000 : UInt16).toNat = 0x8000 := rfl
  have hshape : (board ram image).shape? 0 = some (.ram none, ram.size) := rfl
  refine MappedBus.cell_of_once (b := ⟨0, 0, ram.size, 0⟩) (by rw [hbindings]; simp) ?_ hshape ?_ ?_
  · simp [Binding.covers, h]
  · simpa [Binding.within] using h
  · rw [hbindings]
    intro c hc hsame
    rcases List.mem_cons.1 hc with rfl | hc
    · rfl
    · rw [List.mem_singleton.1 hc] at hsame
      rcases hsame with hdevice | hcover
      · contradiction
      · simp only [Binding.covers, Bool.and_eq_true, decide_eq_true_eq, hhigh] at hcover
        omega

theorem board_shows {ram image : Array UInt8} (hram : ram.size ≤ 0x8000)
    (hfit : image.size ≤ 0x8000) : Bus.Shows (board ram image) 0x8000 image.toList := by
  have hhigh : (0x8000 : UInt16).toNat = 0x8000 := rfl
  have hsize : (Device.rom image).size = image.size := rfl
  refine MappedBus.shows_map (d := .rom image) (by omega) fun i hi => ?_
  have haddr : ((0x8000 : UInt16) + UInt16.ofNat i).toNat = 0x8000 + i := by
    rw [toNat_add_ofNat (by omega), hhigh]
  refine List.find?_eq_none.2 fun b hb => ?_
  have hb : b ∈ [(⟨0, 0, min ((0 : UInt16).toNat + ram.size) 0x10000, 0⟩ : Binding)] := hb
  rw [List.mem_singleton.1 hb, Binding.covers, haddr, UInt16.toNat_zero]
  simp only [Bool.and_eq_true, decide_eq_true_eq]
  omega

end M6502
