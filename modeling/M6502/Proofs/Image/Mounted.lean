import M6502.Proofs.Computer.Mapping
import M6502.Proofs.Computer.ReadOnlyCode
import M6502.Proofs.Image.Loaded

/-!
# Images on the bus

An image says what lies at an address by looking through its segments, a bus
by looking through its bindings and the devices behind them. Where each
segment is on the bus as a ROM they say the same, and that is how cartridges
and plain files come to be there.
-/

set_option autoImplicit false

namespace M6502

namespace Image

def Mounted (img : Image) (bus : MappedBus) : Prop :=
  ∀ s ∈ img.segments, ∃ id, bus.HasCode id s.bytes s.base

variable {img : Image} {bus : MappedBus}

theorem Mounted.readByte?_eq (h : img.Mounted bus) (addr : UInt16) :
    img.readByte? addr =
      if ∃ s ∈ img.segments, InExtent s.base s.bytes.size addr then some (Bus.peek bus addr)
      else none := by
  rw [readByte?, segmentAt?]
  cases hfind : img.segments.find? (·.holds addr) with
  | none =>
    rw [if_neg, Option.map_none]
    rintro ⟨s, hs, hin⟩
    exact List.find?_eq_none.1 hfind s hs (Segment.holds_iff.2 hin)
  | some s =>
    have hs := List.mem_of_find?_eq_some hfind
    have hholds := List.find?_some hfind
    have hin : InExtent s.base s.bytes.size addr := Segment.holds_iff.1 hholds
    obtain ⟨id, hcode⟩ := h s hs
    rw [if_pos ⟨s, hs, hin⟩, Option.map_some, hcode.peek hin, imageByte, Segment.index,
      UInt16.toNat_sub_of_le _ _ (UInt16.le_iff_toNat_le.2 hin.1)]

/-- A word that the image has is the one that the bus answers. -/
theorem Mounted.readWord_eq (h : img.Mounted bus) {addr w : UInt16}
    (hw : img.readWord? addr = some w) : (Bus.readWord addr bus).1 = w := by
  rw [readWord?, h.readByte?_eq, h.readByte?_eq] at hw
  obtain ⟨lo, hlo, hw⟩ := Option.bind_eq_some_iff.1 hw
  obtain ⟨hi, hhi, hw⟩ := Option.bind_eq_some_iff.1 hw
  rw [Option.ite_none_right_eq_some, Option.some.injEq] at hlo hhi
  rw [Bus.readWord_fst, hlo.2, hhi.2]
  exact Option.some.inj hw

end Image

namespace MappedBus

variable {bus : MappedBus} {program : Array UInt8}

theorem reader?_of_unbound (h : bus.bindings = []) (addr : UInt16) : bus.reader? addr = none := by
  rw [reader?, h, List.find?_nil]

/-- A whole bank is on the bus at 0x8000, and so are two. -/
theorem hasCode_mapCartridge (hfree : ∀ addr, bus.reader? addr = none) :
    (bus.mapCartridge program).HasCode bus.nextId program 0x8000 := by
  have hmap : (bus.map (.rom program) 0x8000).HasCode bus.nextId program 0x8000 :=
    hasCode_map fun addr _ => hfree addr
  rw [mapCartridge]
  split
  · refine ⟨hmap.rom, fun addr hin => ?_⟩
    obtain ⟨b, hb, hplace⟩ := hmap.reader addr hin
    exact ⟨b, (reader?_bind ..).trans (Option.or_eq_some_iff.2 (.inl hb)), hplace⟩
  · exact hmap

/-- A single bank is there a second time at 0xC000. -/
theorem hasCode_mirror (hfree : ∀ addr, bus.reader? addr = none) (hsize : program.size = 0x4000) :
    (bus.mapCartridge program).HasCode bus.nextId program 0xC000 := by
  refine ⟨(hasCode_mapCartridge hfree).rom, fun addr hin => ?_⟩
  obtain ⟨hle, hlt⟩ := hin
  -- the bank ends where its mirror begins, so the first binding does not answer there
  have hbehind : (bus.map (.rom program) 0x8000).reader? addr = none := by
    rw [reader?_map (hfree addr), if_neg]
    rintro ⟨-, hfirst⟩
    have hstop : addr.toNat < 0x8000 + program.size := (Nat.lt_min.1 hfirst).1
    have hstart : 0xC000 ≤ addr.toNat := hle
    omega
  have hcover : Binding.covers ⟨bus.nextId, 0xC000, 0x10000, 0xC000⟩ addr = true := by
    rw [Binding.covers, Bool.and_eq_true, decide_eq_true_eq, decide_eq_true_eq]
    exact ⟨hle, addr.toNat_lt⟩
  refine ⟨⟨bus.nextId, 0xC000, 0x10000, 0xC000⟩, ?_, rfl, rfl⟩
  rw [mapCartridge, if_pos hsize]
  exact (reader?_bind ..).trans (Option.or_eq_some_iff.2 (.inr ⟨hbehind, if_pos hcover⟩))

end MappedBus

namespace Cartridge

section Segments

variable {banks : UInt8} {program : Array UInt8}

theorem mounted_segments {bus : MappedBus} (hfree : ∀ addr, bus.reader? addr = none)
    (hsize : program.size = banks.toNat * programBank) :
    (⟨segments banks program⟩ : Image).Mounted (bus.mapCartridge program) := by
  have hmain : (bus.mapCartridge program).HasCode bus.nextId program 0x8000 :=
    MappedBus.hasCode_mapCartridge hfree
  intro s hs
  rw [segments] at hs
  split at hs
  · rename_i hone
    have hbank : program.size = 0x4000 := by rw [hsize, hone]; rfl
    rcases List.mem_pair.1 hs with rfl | rfl
    · exact ⟨bus.nextId, hmain⟩
    · exact ⟨bus.nextId, MappedBus.hasCode_mirror hfree hbank⟩
  · cases List.mem_singleton.1 hs
    exact ⟨bus.nextId, hmain⟩

/-- Together the segments have the upper half of the address space. -/
theorem extent_segments (hbanks : banks = 1 ∨ banks = 2)
    (hsize : program.size = banks.toNat * programBank) (addr : UInt16) :
    (∃ s ∈ segments banks program, InExtent s.base s.bytes.size addr) ↔ 0x8000 ≤ addr := by
  have htop := addr.toNat_lt
  rw [UInt16.le_iff_toNat_le, segments]
  rcases hbanks with rfl | rfl
  · have hbank : program.size = 0x4000 := hsize
    rw [if_pos rfl, List.exists_mem_cons_iff, List.exists_mem_cons_iff]
    show (0x8000 ≤ addr.toNat ∧ addr.toNat < 0x8000 + program.size) ∨
      (0xC000 ≤ addr.toNat ∧ addr.toNat < 0xC000 + program.size) ∨ _ ↔ 0x8000 ≤ addr.toNat
    simp only [List.not_mem_nil, false_and, exists_false, or_false]
    omega
  · have hbank : program.size = 0x8000 := hsize
    rw [if_neg (by decide), List.exists_mem_cons_iff]
    show (0x8000 ≤ addr.toNat ∧ addr.toNat < 0x8000 + program.size) ∨ _ ↔ 0x8000 ≤ addr.toNat
    simp only [List.not_mem_nil, false_and, exists_false, or_false]
    omega

theorem bytes_segments {s : Segment} (hs : s ∈ segments banks program) : s.bytes = program := by
  rw [segments] at hs
  split at hs
  · rcases List.mem_pair.1 hs with rfl | rfl <;> rfl
  · cases List.mem_singleton.1 hs
    rfl

end Segments

/-- A file that starts with the signature and has a whole header, one or two banks of program
memory, and everything else that the header announces. -/
structure Whole (file : Array UInt8) : Prop where
  header : 16 ≤ file.size
  signature : signature.toList <+: file.toList
  banks : file[4]? = some 1 ∨ file[4]? = some 2
  room : 16 + (if (file.getD 6 0).toNat.testBit 2 then 512 else 0) +
    (file.getD 4 0).toNat * 0x4000 + (file.getD 5 0).toNat * 0x2000 ≤ file.size

structure Parted (c : Cartridge) (file front trainer program : Array UInt8) : Prop where
  front_size : front.size = 16
  header_eq : c.header = ⟨front.getD 4 0, front.getD 5 0, front.getD 6 0, front.getD 7 0⟩
  trainer_size : trainer.size = if (front.getD 6 0).toNat.testBit 2 then 512 else 0
  program_size : program.size = (front.getD 4 0).toNat * 0x4000
  picture_size : c.picture.size = (front.getD 5 0).toNat * 0x2000
  joined : (front ++ trainer ++ program ++ c.picture).toList <+: file.toList
  shown : ∀ s ∈ c.image.segments, s.bytes = program

theorem header?_eq_some {file : Array UInt8} {h : CartridgeHeader} :
    header? file = some h ↔ 16 ≤ file.size ∧ signature.toList <+: file.toList ∧
      h = ⟨file.getD 4 0, file.getD 5 0, file.getD 6 0, file.getD 7 0⟩ := by
  have hstart : file.take 4 = signature ↔ signature.toList <+: file.toList := by
    rw [← Array.toList_inj, Array.take_eq_extract, Array.toList_extract, List.extract_eq_take_drop,
      List.drop_zero, List.prefix_iff_eq_take]
    exact eq_comm
  rw [header?, Option.ite_none_right_eq_some, Option.some.injEq, hstart, and_assoc,
    eq_comm (a := h)]

theorem ofFile_ok_iff {file : Array UInt8} {c : Cartridge} :
    ofFile file = .ok c ↔ ∃ h, header? file = some h ∧
      (h.programBanks = 1 ∨ h.programBanks = 2) ∧ h.pictureStop ≤ file.size ∧
      c = ⟨h, ⟨segments h.programBanks (file.extract h.programStart h.programStop)⟩,
        file.extract h.programStop h.pictureStop⟩ := by
  rw [ofFile]
  cases hheader : header? file with
  | none => simp
  | some h =>
    simp only [Option.some.injEq, exists_eq_left']
    split
    · rename_i hbanks
      refine iff_of_false nofun fun hok => ?_
      rcases hok.1 with hone | htwo
      · rw [hone] at hbanks
        exact absurd hbanks (by decide)
      · rw [htwo] at hbanks
        exact absurd hbanks (by decide)
    · rename_i hbanks
      split
      · rename_i hshort
        exact iff_of_false nofun fun hok => absurd hok.2.1 (Nat.not_le_of_lt hshort)
      · rename_i hlong
        rw [Except.ok.injEq, eq_comm]
        exact (and_iff_right (bank_cases hbanks)).trans
          (and_iff_right (Nat.le_of_not_lt hlong)) |>.symm

theorem whole_iff {file : Array UInt8} :
    Whole file ↔ ∃ h, header? file = some h ∧ (h.programBanks = 1 ∨ h.programBanks = 2) ∧
      h.pictureStop ≤ file.size := by
  have hbanks (hlong : 16 ≤ file.size) (b : UInt8) : file[4]? = some b ↔ file.getD 4 0 = b := by
    rw [Array.getD_eq_getD_getElem?, Array.getElem?_eq_getElem (by omega), Option.getD_some,
      Option.some.injEq]
  constructor
  · intro h
    refine ⟨_, header?_eq_some.2 ⟨h.header, h.signature, rfl⟩, ?_, h.room⟩
    exact h.banks.imp (hbanks h.header 1).1 (hbanks h.header 2).1
  · rintro ⟨h, hheader, hcount, hroom⟩
    obtain ⟨hlong, hsignature, rfl⟩ := header?_eq_some.1 hheader
    exact ⟨hlong, hsignature, hcount.imp (hbanks hlong 1).2 (hbanks hlong 2).2, hroom⟩

theorem parted {file : Array UInt8} {h : CartridgeHeader} (hheader : header? file = some h)
    (hroom : h.pictureStop ≤ file.size) :
    Parted ⟨h, ⟨segments h.programBanks (file.extract h.programStart h.programStop)⟩,
        file.extract h.programStop h.pictureStop⟩ file
      (file.extract 0 16) (file.extract 16 h.programStart)
      (file.extract h.programStart h.programStop) := by
  obtain ⟨hlong, -, hfields⟩ := header?_eq_some.1 hheader
  have hstart : h.programStart = 16 + if h.hasTrainer then 512 else 0 := rfl
  have hprogram : h.programStop = h.programStart + h.programBanks.toNat * 0x4000 := rfl
  have hpicture : h.pictureStop = h.programStop + h.pictureBanks.toNat * 0x2000 := rfl
  have hfield {i : Nat} (hi : i < 16) : (file.extract 0 16).getD i 0 = file.getD i 0 := by
    rw [Array.getD_eq_getD_getElem?, Array.getElem?_extract, if_pos (by omega), Nat.zero_add,
      ← Array.getD_eq_getD_getElem?]
  rw [← hfield (by decide : 4 < 16), ← hfield (by decide : 5 < 16), ← hfield (by decide : 6 < 16),
    ← hfield (by decide : 7 < 16)] at hfields
  have hsize {i j : Nat} (hj : j ≤ h.pictureStop) : (file.extract i j).size = j - i := by
    rw [Array.size_extract, Nat.min_eq_left (Nat.le_trans hj hroom)]
  have hjoin {i j : Nat} (hij : i ≤ j) :
      file.extract 0 i ++ file.extract i j = file.extract 0 j := by
    rw [Array.extract_append_extract, Nat.zero_min, Nat.max_eq_right hij]
  constructor
  · rw [hsize (by omega)]
  · exact hfields
  · rw [hsize (by omega), hstart, Nat.add_sub_cancel_left, hfields]
    rfl
  · rw [hsize (by omega), hprogram, Nat.add_sub_cancel_left, hfields]
  · rw [hsize (Nat.le_refl _), hpicture, Nat.add_sub_cancel_left, hfields]
  · rw [hjoin (by omega), hjoin (by omega), hjoin (by omega), Array.toList_extract,
      List.extract_eq_take_drop, List.drop_zero]
    exact List.take_prefix _ _
  · exact fun s hs => bytes_segments hs

end Cartridge

namespace Image

theorem ofFile_ok {file : Array UInt8} {base : UInt16} {skip : Nat} {limit : Option Nat}
    {img : Image} (h : ofFile file base skip limit = .ok img) :
    ∃ payload : Array UInt8,
      payload.toList = (file.toList.drop skip).take (limit.getD (file.size - skip)) ∧
      payload.size = limit.getD (file.size - skip) ∧
      img = ⟨[⟨"segment0", base, payload, "raw"⟩]⟩ := by
  rw [ofFile] at h
  split at h
  · contradiction
  · have hrest : (file.extract skip file.size).size = file.size - skip := by
      rw [Array.size_extract, Nat.min_self]
    dsimp only at h
    rw [hrest] at h
    split at h
    · contradiction
    · rename_i hlimit
      split at h
      · contradiction
      · refine ⟨_, ?_, ?_, (Except.ok.inj h).symm⟩
        · rw [Array.take_eq_extract, Array.toList_extract, Array.toList_extract,
            List.extract_eq_take_drop, List.extract_eq_take_drop, List.drop_zero, Nat.sub_zero,
            List.take_of_length_le (i := file.size - skip)
              (Nat.le_of_eq (by rw [List.length_drop, Array.length_toList]))]
        · rw [Array.take_eq_extract, Array.size_extract, hrest, Nat.sub_zero]
          refine Nat.min_eq_left ?_
          cases limit with
          | none => exact Nat.le_refl _
          | some n => simpa using hlimit

theorem mounted_load {c : Computer} (hfree : ∀ addr, c.bus.reader? addr = none) (name kind : String)
    (base : UInt16) (payload : Array UInt8) :
    (⟨[⟨name, base, payload, kind⟩]⟩ : Image).Mounted (c.load payload base).bus := by
  intro s hs
  cases List.mem_singleton.1 hs
  exact ⟨c.bus.nextId, Computer.hasCode_load fun addr _ => hfree addr⟩

/-- An image reads as the bus does on which its file is mapped. A cartridge file makes an image
exactly when it is whole, and is then taken apart without a gap; its image reads in the upper half
of the address space as a bus where its program memory is mapped. The image of a plain file reads in
the extent of its payload as the bus of a computer that loaded the payload there, and every vector
that it has is the one that the computer took. Elsewhere neither image has anything. -/
theorem reads_as_bus (file : Array UInt8) :
    ((∃ c, Cartridge.ofFile file = .ok c) ↔ Cartridge.Whole file) ∧
    (∀ c, Cartridge.ofFile file = .ok c → ∃ front trainer program,
      c.Parted file front trainer program ∧
      ∀ bus : MappedBus, bus.bindings = [] → ∀ addr,
        c.image.readByte? addr =
          if 0x8000 ≤ addr then some (Bus.peek (bus.mapCartridge program) addr) else none) ∧
    ∀ base skip limit img, ofFile file base skip limit = .ok img → ∃ payload : Array UInt8,
      payload.toList = (file.toList.drop skip).take (limit.getD (file.size - skip)) ∧
      payload.size = limit.getD (file.size - skip) ∧
      ∀ c : Computer, c.bus.bindings = [] →
        (∀ addr, img.readByte? addr =
          if InExtent base payload.size addr then some (Bus.peek (c.load payload base).bus addr)
          else none) ∧
        (∀ w, img.readWord? nmiVector = some w → (c.load payload base).vectors.nmi = w) ∧
        (∀ w, img.readWord? resetVector = some w → (c.load payload base).vectors.reset = w) ∧
        ∀ w, img.readWord? irqVector = some w → (c.load payload base).vectors.irq = w := by
  refine ⟨?_, fun c hc => ?_, fun base skip limit img himg => ?_⟩
  · rw [Cartridge.whole_iff]
    constructor
    · rintro ⟨c, hc⟩
      obtain ⟨h, hheader, hbanks, hroom, -⟩ := Cartridge.ofFile_ok_iff.1 hc
      exact ⟨h, hheader, hbanks, hroom⟩
    · rintro ⟨h, hheader, hbanks, hroom⟩
      exact ⟨_, Cartridge.ofFile_ok_iff.2 ⟨h, hheader, hbanks, hroom, rfl⟩⟩
  · obtain ⟨h, hheader, hbanks, hroom, rfl⟩ := Cartridge.ofFile_ok_iff.1 hc
    have hparted := Cartridge.parted hheader hroom
    refine ⟨_, _, _, hparted, fun bus hbus addr => ?_⟩
    have hsize : (file.extract h.programStart h.programStop).size =
        h.programBanks.toNat * programBank := by
      have hcount : h.programBanks = (file.extract 0 16).getD 4 0 :=
        congrArg CartridgeHeader.programBanks hparted.header_eq
      rw [hparted.program_size, hcount]
      rfl
    have hmounted := Cartridge.mounted_segments (MappedBus.reader?_of_unbound hbus) hsize
    rw [hmounted.readByte?_eq, if_congr (Cartridge.extent_segments hbanks hsize addr) rfl rfl]
  · obtain ⟨payload, hpayload, hsize, rfl⟩ := ofFile_ok himg
    refine ⟨payload, hpayload, hsize, fun c hbus => ?_⟩
    have hmounted := mounted_load (MappedBus.reader?_of_unbound hbus) "segment0" "raw" base payload
    rw [Computer.vectors_load]
    dsimp only
    refine ⟨fun addr => ?_, fun w hw => ?_, fun w hw => ?_, fun w hw => ?_⟩
    · rw [hmounted.readByte?_eq]
      simp only [List.mem_singleton, exists_eq_left]
    · exact hmounted.readWord_eq hw
    · exact hmounted.readWord_eq hw
    · exact hmounted.readWord_eq hw

def oneBank : Array UInt8 :=
  #[0x4E, 0x45, 0x53, 0x1A, 1, 0, 0, 0, 0, 0, 0, 0, 0, 0, 0, 0] ++ Array.replicate 0x4000 0xEA

theorem Cartridge.whole_oneBank : Cartridge.Whole oneBank where
  header := by simp [oneBank]
  signature := by
    rw [oneBank, Array.toList_append]
    exact List.IsPrefix.trans (by decide) (List.prefix_append _ _)
  banks := by simp [oneBank]
  room := by simp [oneBank]

/-- The bank and the three vectors of a plain file read as the bus has them. -/
theorem reads_as_bus_oneBank :
    (∃ (c : Cartridge) (front trainer program : Array UInt8),
      c.Parted oneBank front trainer program ∧
      c.image.readByte? 0x7FFF = none ∧
      c.image.readByte? 0xFFFC =
        some (Bus.peek (MappedBus.empty.mapCartridge program) 0xFFFC)) ∧
    ((Computer.new {}).load #[0x00, 0x80, 0x34, 0x12, 0xFE] 0xFFFA).vectors.nmi = 0x8000 ∧
    ((Computer.new {}).load #[0x00, 0x80, 0x34, 0x12, 0xFE] 0xFFFA).vectors.reset = 0x1234 := by
  constructor
  · obtain ⟨hwhole, hcartridge, -⟩ := reads_as_bus oneBank
    obtain ⟨c, hc⟩ := hwhole.2 Cartridge.whole_oneBank
    obtain ⟨front, trainer, program, hparted, hread⟩ := hcartridge c hc
    exact ⟨c, front, trainer, program, hparted, hread .empty rfl 0x7FFF, hread .empty rfl 0xFFFC⟩
  · obtain ⟨-, -, hfile⟩ := reads_as_bus #[0xEA, 0x00, 0x80, 0x34, 0x12, 0xFE]
    obtain ⟨payload, hpayload, -, hvectors⟩ := hfile 0xFFFA 1 none
      ⟨[⟨"segment0", 0xFFFA, #[0x00, 0x80, 0x34, 0x12, 0xFE], "raw"⟩]⟩ (by decide +kernel)
    obtain rfl : payload = #[0x00, 0x80, 0x34, 0x12, 0xFE] := Array.toList_inj.1 hpayload
    obtain ⟨-, hnmi, hreset, -⟩ := hvectors (Computer.new {}) rfl
    exact ⟨hnmi 0x8000 (by decide), hreset 0x1234 (by decide)⟩

end Image

end M6502
