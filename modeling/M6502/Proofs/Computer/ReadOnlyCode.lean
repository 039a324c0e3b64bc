import M6502.Proofs.Bus.Loading
import M6502.Proofs.Computer.PowerCycle
import M6502.Proofs.Processor.Agreement

/-!
# Code in ROM

A ROM answers the addresses of its extent where no RAM was mapped before it.
No history changes that, so an instruction that is executed there is the one
that the image has, and what was counted there can be read off the image.
-/

set_option autoImplicit false

namespace M6502

def InExtent (start : UInt16) (size : Nat) (addr : UInt16) : Prop :=
  start.toNat ≤ addr.toNat ∧ addr.toNat < start.toNat + size

instance (start : UInt16) (size : Nat) (addr : UInt16) : Decidable (InExtent start size addr) :=
  inferInstanceAs (Decidable (_ ∧ _))

theorem InExtent.toNat_sub_lt {start addr : UInt16} {size : Nat} (h : InExtent start size addr) :
    (addr - start).toNat < size := by
  obtain ⟨hle, hlt⟩ := h
  rw [UInt16.toNat_sub_of_le _ _ (UInt16.le_iff_toNat_le.2 hle)]
  omega

def imageByte (image : Array UInt8) (offset addr : UInt16) : UInt8 :=
  image.getD (addr - offset).toNat 0

namespace MappedBus

structure HasCode (bus : MappedBus) (id : Nat) (image : Array UInt8) (offset : UInt16) : Prop where
  rom : bus.device? id = some (.rom image)
  reader : ∀ addr, InExtent offset image.size addr →
    ∃ b, bus.reader? addr = some b ∧ b.device = id ∧ b.offset = offset

variable {bus next : MappedBus} {id : Nat} {image : Array UInt8} {offset addr : UInt16}

theorem HasCode.peek (h : bus.HasCode id image offset) (hin : InExtent offset image.size addr) :
    Bus.peek bus addr = imageByte image offset addr := by
  obtain ⟨b, hb, hdevice, hoffset⟩ := h.reader addr hin
  rw [peek_eq, hb]
  simp only [MappedBus.peek, hdevice, h.rom, Binding.within, hoffset]
  rfl

theorem HasCode.of_sameWiring (h : bus.HasCode id image offset) (hs : SameWiring bus next) :
    next.HasCode id image offset where
  rom := hs.device?_rom h.rom
  reader addr hin := by
    rw [hs.sameLayout.reader?_eq]
    exact h.reader addr hin

theorem hasCode_map (hfree : ∀ addr, InExtent offset image.size addr → bus.reader? addr = none) :
    (bus.map (.rom image) offset).HasCode bus.nextId image offset where
  rom := device?_nextId ..
  reader addr hin := by
    have hstop : addr.toNat < min (offset.toNat + (Device.rom image).size) 0x10000 :=
      Nat.lt_min.2 ⟨hin.2, addr.toNat_lt⟩
    rw [reader?_map (hfree addr hin), if_pos ⟨hin.1, hstop⟩]
    exact ⟨_, rfl, rfl, rfl⟩

end MappedBus

namespace Computer

variable {c loaded : Computer} {id : Nat} {image : Array UInt8} {offset : UInt16}

def Obeys (c : Computer) (b : UInt8) : Prop :=
  match Encoding.ofOpcode? b with
  | some e => c.step.1 = .ok e ∨ ∃ addr cause, c.step.1 = .error (.bus addr cause)
  | none => c.step.1 = .error (.illegalOpcode c.regs.pc b)

theorem obeys_peek (c : Computer) : c.Obeys (Bus.peek c.bus c.regs.pc) := by
  rw [Obeys, step_eq]
  cases hop : Encoding.ofOpcode? (Bus.peek c.bus c.regs.pc) with
  | none =>
    have hstep := step_undocumented hop
    simp only [hstep]
  | some e =>
    obtain ⟨v, hshows⟩ := Bus.shows_of_opcode hop
    obtain ⟨next, -, hstep⟩ := M6502.step_eq hshows
    simp only [hstep]
    cases hcommit : Outcome.commit (e.outcome c.regs (Bus.peek c.bus) v).regs
        (e.outcome c.regs (Bus.peek c.bus) v).stores next with
    | ok _ m => exact .inl rfl
    | error t m =>
      obtain ⟨s, -, cause, rfl⟩ := Outcome.trap_of_commit hcommit
      exact .inr ⟨s.addr, cause, rfl⟩

theorem Obeys.encoding {b : UInt8} {e : Encoding} (h : c.Obeys b) (he : c.step.1 = .ok e) :
    Encoding.ofOpcode? b = some e := by
  rw [Obeys, he] at h
  cases hop : Encoding.ofOpcode? b with
  | none =>
    rw [hop] at h
    cases h
  | some d =>
    rw [hop] at h
    rcases h with h | ⟨addr, cause, h⟩
    · cases h
      rfl
    · cases h

/-- An address keeps the instruction that was first counted there. -/
theorem encoding_warm {heat : Std.TreeMap UInt16 Heat} {pc addr : UInt16} {e : Encoding} {h : Heat}
    (hh : (warm heat pc e)[addr]? = some h) :
    (∃ k, heat[addr]? = some k ∧ k.encoding = h.encoding) ∨ addr = pc ∧ h.encoding = e := by
  rw [getElem?_warm] at hh
  split at hh
  · rename_i heq
    subst heq
    cases hk : heat[pc]? with
    | none =>
      rw [hk] at hh
      cases hh
      exact .inr ⟨rfl, rfl⟩
    | some k =>
      rw [hk] at hh
      cases hh
      exact .inl ⟨k, rfl, rfl⟩
  · exact .inl ⟨h, hh, rfl⟩

def HeatReads (image : Array UInt8) (offset : UInt16) (c : Computer) : Prop :=
  ∀ pc h, c.heat[pc]? = some h → InExtent offset image.size pc →
    Encoding.ofOpcode? (imageByte image offset pc) = some h.encoding

theorem HeatReads.step (h : HeatReads image offset c) (hcode : c.bus.HasCode id image offset) :
    HeatReads image offset c.step.2 := by
  intro pc entry hentry hin
  rw [heat_step] at hentry
  cases he : c.step.1 with
  | error t =>
    rw [he] at hentry
    exact h pc entry hentry hin
  | ok e =>
    rw [he] at hentry
    simp only [tally] at hentry
    split at hentry
    · -- a new entry is what was executed just now, and that was read from the image
      rcases encoding_warm hentry with ⟨k, hk, hsame⟩ | ⟨rfl, hfirst⟩
      · rw [← hsame]
        exact h pc k hk hin
      · rw [hfirst, ← hcode.peek hin]
        exact c.obeys_peek.encoding he
    · exact h pc entry hentry hin

theorem invariant_code (hcode : loaded.bus.HasCode id image offset) :
    Invariant fun c => SameWiring loaded c ∧ HeatReads image offset c where
  step h := ⟨(invariant_sameWiring loaded).step h.1, h.2.step (hcode.of_sameWiring h.1.bus)⟩
  enter {d} h := by
    obtain ⟨m, hm⟩ := d.act_snd (enterInterrupt d.vectors.nmi)
    refine ⟨(invariant_sameWiring loaded).enter h.1, ?_⟩
    rw [hm]
    exact h.2
  reset h := by
    refine ⟨(invariant_sameWiring loaded).reset h.1, ?_⟩
    intro pc entry hentry
    rw [reset_eq] at hentry
    cases hentry
  access h r := ⟨(invariant_sameWiring loaded).access h.1 r, h.2⟩
  setRegisters h regs := ⟨(invariant_sameWiring loaded).setRegisters h.1 regs, h.2⟩

structure PlacedRam where
  size : Nat
  observer : Option Observer
  start : UInt16

def PlacedRam.wire (r : PlacedRam) : Wire :=
  .map (.ram r.size r.observer) r.start

def booted (settings : Settings) (rams : List PlacedRam) (image : Array UInt8) (offset : UInt16) :
    Computer :=
  ((new settings).wired (rams.map PlacedRam.wire)).load image offset

theorem nextId_wired (c : Computer) (rams : List PlacedRam) :
    (c.wired (rams.map PlacedRam.wire)).bus.nextId = c.bus.nextId + rams.length := by
  induction rams generalizing c with
  | nil => rfl
  | cons r rams ih =>
    have hsize : (c.wire r.wire).bus.nextId = c.bus.nextId + 1 := Array.size_push _
    rw [List.map_cons, wired, ih, hsize, List.length_cons]
    omega

theorem reader?_wired {addr : UInt16} (hfree : c.bus.reader? addr = none) {rams : List PlacedRam}
    (hrams : ∀ r ∈ rams, ¬ InExtent r.start r.size addr) :
    (c.wired (rams.map PlacedRam.wire)).bus.reader? addr = none := by
  induction rams generalizing c with
  | nil => exact hfree
  | cons r rams ih =>
    rw [List.forall_mem_cons] at hrams
    refine ih ?_ hrams.2
    have hsize : (Device.ram r.size r.observer).size = r.size := Array.size_replicate
    show (c.bus.map (.ram r.size r.observer) r.start).reader? addr = none
    rw [MappedBus.reader?_map hfree, if_neg]
    rintro ⟨hle, hlt⟩
    rw [hsize] at hlt
    exact hrams.1 ⟨hle, (Nat.lt_min.1 hlt).1⟩

theorem hasCode_load
    (hfree : ∀ addr, InExtent offset image.size addr → c.bus.reader? addr = none) :
    (c.load image offset).bus.HasCode c.bus.nextId image offset := by
  have hreset := (invariant_sameWiring { c with bus := c.bus.map (.rom image) offset }).reset
    (.refl _)
  rw [load]
  exact (MappedBus.hasCode_map hfree).of_sameWiring hreset.bus

theorem hasCode_booted (settings : Settings) {rams : List PlacedRam}
    (hapart : ∀ r ∈ rams, ∀ addr, InExtent offset image.size addr →
      ¬ InExtent r.start r.size addr) :
    (booted settings rams image offset).bus.HasCode rams.length image offset := by
  have hid := nextId_wired (new settings) rams
  rw [show (new settings).bus.nextId = 0 from rfl, Nat.zero_add] at hid
  rw [← hid, booted]
  exact hasCode_load fun addr hin => reader?_wired rfl fun r hr => hapart r hr addr hin

structure CodeKept (id : Nat) (image : Array UInt8) (offset : UInt16) (loaded c : Computer) :
    Prop where
  bindings_eq : c.bus.bindings = loaded.bus.bindings
  size_eq : ∀ id, (c.bus.device? id).map Device.size = (loaded.bus.device? id).map Device.size
  rom : c.bus.device? id = some (.rom image)
  heat : ∀ pc h, (pc, h) ∈ c.heatList → InExtent offset image.size pc →
    Encoding.ofOpcode? (imageByte image offset pc) = some h.encoding ∧
      ((pc - offset).toNat + h.encoding.size ≤ image.size →
        ∃ operand, Instruction.decodeAt? image (pc - offset).toNat = some ⟨h.encoding, operand⟩)

theorem codeKept (hcode : loaded.bus.HasCode id image offset) (hw : SameWiring loaded c)
    (hheat : HeatReads image offset c) : CodeKept id image offset loaded c where
  bindings_eq := hw.bus.bindings_eq
  size_eq other := by
    have hshape := congrFun hw.bus.sameLayout.shape_eq other
    rw [MappedBus.shape?, MappedBus.shape?] at hshape
    have hsize := congrArg (Option.map Prod.snd) hshape
    rwa [Option.map_map, Option.map_map] at hsize
  rom := (hcode.of_sameWiring hw.bus).rom
  heat pc h hmem hin := by
    have hop := hheat pc h (Std.TreeMap.mem_toList_iff_getElem?_eq_some.1 hmem) hin
    refine ⟨hop, fun hfit => Instruction.decodeAt?_exists ?_ hfit⟩
    rw [imageByte, Array.getD_eq_getD_getElem?, Array.getElem?_eq_getElem hin.toNat_sub_lt] at hop
    rw [Array.getElem?_eq_getElem hin.toNat_sub_lt]
    exact hop

/-- Code in ROM is executed as the image has it. Where no RAM lies in the extent of the image, every
history keeps the wiring and the image, and an instruction that is executed in the extent, by a
step, in a run or behind an interrupt, is that of the image at its address. An undocumented byte of
the image always traps there. -/
theorem executes_as_it_reads (settings : Settings) (rams : List PlacedRam) (image : Array UInt8)
    (offset : UInt16)
    (hapart : ∀ r ∈ rams, ∀ addr, InExtent offset image.size addr → ¬ InExtent r.start r.size addr)
    (events : List Event) :
    CodeKept rams.length image offset (booted settings rams image offset)
      ((booted settings rams image offset).follow events) ∧
    ∀ e site, Executes e ((booted settings rams image offset).follow events) site →
      CodeKept rams.length image offset (booted settings rams image offset) site ∧
      (InExtent offset image.size site.regs.pc →
        site.Obeys (imageByte image offset site.regs.pc)) := by
  have hcode := hasCode_booted settings hapart
  have hinv := invariant_code hcode
  have hstart : HeatReads image offset (booted settings rams image offset) := by
    intro pc h hentry
    rw [booted, load, reset_eq] at hentry
    cases hentry
  have hlast := hinv.follow events ⟨.refl _, hstart⟩
  refine ⟨codeKept hcode hlast.1 hlast.2, fun e site hsite => ?_⟩
  obtain ⟨hwiring, hheat⟩ := hinv.executes hsite hlast
  refine ⟨codeKept hcode hwiring hheat, fun hin => ?_⟩
  rw [← (hcode.of_sameWiring hwiring.bus).peek hin]
  exact site.obeys_peek

def storeAhead : Array UInt8 :=
  #[0xEA, 0x8D, 0xF8, 0xFF, 0x02, 0x00, 0x00, 0x00, 0xF4, 0xFF, 0x00, 0x00]

def afterStore : Computer :=
  (booted ⟨some 8, true⟩ [⟨0x0200, none, 0x0000⟩] storeAhead 0xFFF4).follow
    [.step, .step, .access (.write 0xFFF8 0xEA)]

/-- The byte is as it was, and traps. -/
theorem executes_as_it_reads_after_store :
    afterStore.bus.device? 1 = some (.rom storeAhead) ∧
      afterStore.step.1 = .error (.illegalOpcode 0xFFF8 0x02) := by
  have hapart : ∀ r ∈ [(⟨0x0200, none, 0x0000⟩ : PlacedRam)], ∀ addr,
      InExtent 0xFFF4 storeAhead.size addr → ¬ InExtent r.start r.size addr := by
    intro r hr addr hin hover
    rw [List.mem_singleton.1 hr] at hover
    have hlow : addr.toNat < 0x0200 := hover.2
    have hhigh : 0xFFF4 ≤ addr.toNat := hin.1
    omega
  obtain ⟨hkept, hsites⟩ := executes_as_it_reads ⟨some 8, true⟩ _ _ _ hapart
    [.step, .step, .access (.write 0xFFF8 0xEA)]
  obtain ⟨-, hobeys⟩ := hsites .step afterStore (.step afterStore)
  have hpc : afterStore.regs.pc = 0xFFF8 := by decide +kernel
  have hin : InExtent 0xFFF4 storeAhead.size 0xFFF8 := by decide +kernel
  have hbyte : imageByte storeAhead 0xFFF4 0xFFF8 = 0x02 := by decide
  have hop : Encoding.ofOpcode? 0x02 = none := by decide +kernel
  rw [hpc, hbyte] at hobeys
  have htrap := hobeys hin
  rw [Obeys, hop, hpc] at htrap
  exact ⟨hkept.rom, htrap⟩

end Computer

end M6502
