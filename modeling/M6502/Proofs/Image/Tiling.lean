import M6502.Image.Listing
import M6502.Proofs.Image.Loaded
import M6502.Proofs.Source.RoundTrip

/-!
# Listings lose nothing

The lines of a listing follow each other through memory without gap or
overlap and show what memory holds. The text of every line describes exactly
the bytes of the line, so the listing assembles to the memory that it shows.
-/

set_option autoImplicit false

namespace M6502

namespace Image

/-- The lines cover memory from `position` on, each with the bytes at its address and the next one
right behind them. They end at the first boundary that is not in front of `stop`, or with the
first line that would start where nothing is mapped. -/
def Tiles (img : Image) (stop : Nat) : Nat → List ImageLine → Prop
  | position, [] => stop ≤ position
  | position, l :: lines =>
    position < stop ∧ l.addr.toNat = position ∧
      match l.item with
      | none => l.bytes = [] ∧ lines = [] ∧ img.readByte? l.addr = none
      | some _ =>
        l.bytes ≠ [] ∧ position + l.bytes.length ≤ 0x10000 ∧
          (∀ k < l.bytes.length, img.readByte? (UInt16.ofNat (position + k)) = l.bytes[k]?) ∧
          img.Tiles stop (position + l.bytes.length) lines

end Image

namespace Segment

theorem slice_one {s : Segment} {addr : UInt16} (h : s.index addr < s.bytes.size) :
    s.slice addr 1 = [s.bytes.getD (s.index addr) 0] := by
  have hget : s.index addr < s.bytes.toList.length := h
  rw [slice, Array.toList_extract, List.extract_eq_take_drop, Nat.add_sub_cancel_left,
    List.drop_eq_getElem_cons hget, List.take_succ_cons, List.take_zero, Array.getD, dif_pos h]
  rfl

/-- What stands at an address that the segment holds is the item of the bytes there. -/
theorem itemAt_spec {s : Segment} {addr : UInt16} (h : s.holds addr = true) :
    (s.itemAt addr).Listable ∧ (s.itemAt addr).reference? = none ∧
      s.slice addr (s.itemAt addr).length = (s.itemAt addr).literalBytes ∧
      s.index addr + (s.itemAt addr).length ≤ s.bytes.size := by
  have hindex : s.index addr < s.bytes.size := by
    have hh := holds_iff.1 h
    unfold stop at hh
    unfold index
    omega
  unfold itemAt
  split
  · rename_i i hi
    obtain ⟨hliteral, hslice, hfit⟩ := Instruction.decodeAt?_eq_some hi
    exact ⟨Instruction.listable_of_literal hliteral, Instruction.unlabelled_of_literal hliteral,
      hslice, hfit⟩
  · exact ⟨List.cons_ne_nil _ _, rfl, slice_one hindex, hindex⟩

/-- The bytes behind an address are those that memory holds there. -/
theorem readByte?_slice {img : Image} (himg : img.Ascends) {s : Segment} (hs : s ∈ img.segments)
    {position n : Nat} (hlow : s.base.toNat ≤ position) (hfit : position + n ≤ s.stop) {k : Nat}
    (hk : k < n) :
    img.readByte? (UInt16.ofNat (position + k)) =
      (s.slice (UInt16.ofNat position) n)[k]? := by
  have hstop := himg.stop_le s hs
  have haddr : (UInt16.ofNat (position + k)).toNat = position + k := by
    rw [UInt16.toNat_ofNat']
    omega
  have hstart : (UInt16.ofNat position).toNat = position := by
    rw [UInt16.toNat_ofNat']
    omega
  have hholds : s.holds (UInt16.ofNat (position + k)) = true := by
    rw [holds_iff, haddr]
    omega
  have hindex : position + k - s.base.toNat < s.bytes.size := by
    unfold stop at hfit
    omega
  have hin : k < min (position - s.base.toNat + n) s.bytes.size - (position - s.base.toNat) := by
    omega
  have hplace : position - s.base.toNat + k = position + k - s.base.toNat := by omega
  rw [Image.readByte?, himg.segmentAt?_eq hs hholds, Option.map_some, index, haddr, slice, index,
    hstart, Array.getElem?_toList, Array.getElem?_extract, if_pos hin, hplace,
    Array.getElem?_eq_getElem hindex, Array.getD, dif_pos hindex]
  rfl

end Segment

namespace ImageLine

def Sound (l : ImageLine) : Prop :=
  match l.item with
  | none => l.bytes = []
  | some item => item.Listable ∧ item.reference? = none ∧ l.bytes = item.literalBytes

def mapped (lines : List ImageLine) : List ImageLine :=
  lines.filter (·.item.isSome)

/-- Sound lines are the text and the bytes of items without labels. -/
theorem items_of_sound {lines : List ImageLine} (h : ∀ l ∈ lines, l.Sound) :
    ∃ items : List Item, (∀ item ∈ items, item.Listable) ∧
      (∀ item ∈ items, item.reference? = none) ∧
      (mapped lines).map (·.text.toList) = items.map Item.line ∧
      (mapped lines).flatMap (·.bytes) = items.flatMap Item.literalBytes := by
  induction lines with
  | nil =>
    have hnone (item : Item) (hi : item ∈ ([] : List Item)) : False := List.not_mem_nil hi
    exact ⟨[], fun item hi => (hnone item hi).elim, fun item hi => (hnone item hi).elim, rfl, rfl⟩
  | cons l lines ih =>
    rw [List.forall_mem_cons] at h
    obtain ⟨items, hlist, href, htext, hbytes⟩ := ih h.2
    obtain ⟨addr, bytes, item⟩ := l
    cases item with
    | none => exact ⟨items, hlist, href, htext, hbytes⟩
    | some item =>
      obtain ⟨hl, hr, hb⟩ :
          item.Listable ∧ item.reference? = none ∧ bytes = item.literalBytes := h.1
      have hmapped : mapped (⟨addr, bytes, some item⟩ :: lines) =
          ⟨addr, bytes, some item⟩ :: mapped lines := rfl
      have hline : item.text.toList = item.line := String.toList_ofList
      have htexts : (mapped (⟨addr, bytes, some item⟩ :: lines)).map (·.text.toList) =
          (item :: items).map Item.line := by
        rw [hmapped, List.map_cons, List.map_cons, htext, text, hline]
      have hall : (mapped (⟨addr, bytes, some item⟩ :: lines)).flatMap (·.bytes) =
          (item :: items).flatMap Item.literalBytes := by
        rw [hmapped, List.flatMap_cons, List.flatMap_cons, hbytes, hb]
      exact ⟨item :: items, List.forall_mem_cons.2 ⟨hl, hlist⟩,
        List.forall_mem_cons.2 ⟨hr, href⟩, htexts, hall⟩

end ImageLine

namespace Image

theorem toNat_position {stop position : Nat} (hstop : stop ≤ 0x10000) (h : position < stop) :
    (UInt16.ofNat position).toNat = position := by
  rw [UInt16.toNat_ofNat']
  omega

theorem readByte?_unmapped {img : Image} {addr : UInt16} (h : img.segmentAt? addr = none) :
    img.readByte? addr = none := by
  rw [readByte?, h]
  rfl

theorem list_unmapped {img : Image} {stop position : Nat} (h : position < stop)
    (hs : img.segmentAt? (UInt16.ofNat position) = none) :
    img.list stop position = [⟨UInt16.ofNat position, [], none⟩] := by
  rw [list, if_pos h]
  simp only [hs]

theorem list_mapped {img : Image} {stop position : Nat} (h : position < stop) {s : Segment}
    (hs : img.segmentAt? (UInt16.ofNat position) = some s) {item : Item}
    (hitem : s.itemAt (UInt16.ofNat position) = item) :
    img.list stop position =
      ⟨UInt16.ofNat position, s.slice (UInt16.ofNat position) item.length, some item⟩ ::
        img.list stop (position + item.length) := by
  rw [list, if_pos h]
  simp only [hs, hitem]

theorem list_done {img : Image} {stop position : Nat} (h : ¬position < stop) :
    img.list stop position = [] := by
  rw [list, if_neg h]

/-- One line: it shows the memory behind its address, and its item reads back. -/
theorem line_spec {img : Image} (himg : img.Ascends) {stop position : Nat}
    (hstop : stop ≤ 0x10000) (h : position < stop) {s : Segment}
    (hs : img.segmentAt? (UInt16.ofNat position) = some s) {lines : List ImageLine} {item : Item}
    (hitem : s.itemAt (UInt16.ofNat position) = item)
    (hrest : img.Tiles stop (position + item.length) lines) :
    img.Tiles stop position
        (⟨UInt16.ofNat position, s.slice (UInt16.ofNat position) item.length, some item⟩ :: lines) ∧
      (⟨UInt16.ofNat position, s.slice (UInt16.ofNat position) item.length, some item⟩ :
        ImageLine).Sound := by
  have hmem : s ∈ img.segments := List.mem_of_find?_eq_some hs
  have hholds : s.holds (UInt16.ofNat position) = true := by
    have hfound := @List.find?_some _ _ s img.segments hs
    exact hfound
  have haddr := toNat_position hstop h
  have hlow : s.base.toNat ≤ position := by
    rw [← haddr]
    exact (Segment.holds_iff.1 hholds).1
  obtain ⟨hlist, href, hslice, hfit⟩ := Segment.itemAt_spec hholds
  rw [hitem] at hlist href hslice hfit
  -- the item ends in its segment, and so in the address space, even when it ends behind `stop`
  rw [Segment.index, haddr] at hfit
  have hend : position + item.length ≤ s.stop := by
    unfold Segment.stop
    omega
  have hbelow := himg.stop_le s hmem
  have hlen : (s.slice (UInt16.ofNat position) item.length).length = item.length := by
    rw [Segment.slice, Array.length_toList, Array.size_extract, Segment.index, haddr]
    omega
  have hpos : 0 < item.length := by
    rw [← hitem]
    exact s.length_itemAt_pos _
  constructor
  · show position < stop ∧ _ = position ∧ _ ≠ [] ∧ _ ∧ _ ∧ _
    have hne : s.slice (UInt16.ofNat position) item.length ≠ [] := by
      apply List.ne_nil_of_length_pos
      rw [hlen]
      exact hpos
    rw [hlen]
    have hread : ∀ k < item.length, img.readByte? (UInt16.ofNat (position + k)) =
        (s.slice (UInt16.ofNat position) item.length)[k]? := by
      intro k hk
      exact Segment.readByte?_slice himg hmem hlow hend hk
    exact ⟨h, haddr, hne, Nat.le_trans hend hbelow, hread, hrest⟩
  · exact ⟨hlist, href, hslice⟩

theorem list_spec {img : Image} (himg : img.Ascends) {stop : Nat} (hstop : stop ≤ 0x10000)
    (position : Nat) :
    img.Tiles stop position (img.list stop position) ∧ ∀ l ∈ img.list stop position, l.Sound := by
  induction position using Image.list.induct img stop with
  | case1 position hlt addr hnone =>
    rw [list_unmapped hlt hnone]
    constructor
    · exact ⟨hlt, toNat_position hstop hlt, rfl, rfl, readByte?_unmapped hnone⟩
    · rw [List.forall_mem_singleton]
      rfl
  | case2 position hlt addr s hs item ih =>
    obtain ⟨htiles, hsound⟩ := ih
    obtain ⟨hline, hfirst⟩ := line_spec himg hstop hlt hs rfl htiles
    rw [list_mapped hlt hs rfl]
    exact ⟨hline, List.forall_mem_cons.2 ⟨hfirst, hsound⟩⟩
  | case3 position hge =>
    rw [list_done hge]
    constructor
    · exact Nat.le_of_not_lt hge
    · intro l hl
      exact absurd hl List.not_mem_nil

/-- The listing of a range of a loaded image tiles the range, as far as it is mapped, and its text
assembles to the bytes that it shows. -/
theorem listing_reassembles {img : Image} (himg : img.Loaded) (start : UInt16) {stop : Nat}
    (hstop : stop ≤ 0x10000) :
    img.Tiles stop start.toNat (img.listing start stop) ∧
      ∀ size, ((ImageLine.mapped (img.listing start stop)).flatMap (·.bytes)).length ≤ size →
        ∃ p, Source.parseLines size
            ((ImageLine.mapped (img.listing start stop)).map (·.text.toList)) = .ok p ∧
          p.build true =
            .ok ((ImageLine.mapped (img.listing start stop)).flatMap (·.bytes)).toArray := by
  obtain ⟨htiles, hsound⟩ := list_spec himg.ascends hstop start.toNat
  constructor
  · exact htiles
  · intro size hsize
    obtain ⟨items, hlist, href, htext, hbytes⟩ := ImageLine.items_of_sound hsound
    have htext : (ImageLine.mapped (img.listing start stop)).map (·.text.toList) =
        items.map Item.line := htext
    have hbytes : (ImageLine.mapped (img.listing start stop)).flatMap (·.bytes) =
        items.flatMap Item.literalBytes := hbytes
    rw [hbytes] at hsize ⊢
    have hparse := Source.parseLines_listing size hlist
    rw [← htext] at hparse
    have hfitted := Program.fitted_self (items.flatMap Item.literalBytes).toArray
    rw [List.size_toArray] at hfitted
    exact ⟨_, hparse, (build_extend_pieces hlist href).2 ⟨hsize, hfitted.symm⟩⟩

def topSegment : Segment :=
  ⟨"segment0", 0xFFFC, #[0x02, 0xA9, 0x10, 0x4C], "raw"⟩

theorem listing_top : (⟨[topSegment]⟩ : Image).listing 0xFFFC 0x10000 = [
    ⟨0xFFFC, [0x02], some (.data (.bytes [0x02]))⟩,
    ⟨0xFFFD, [0xA9, 0x10], some (.instruction ⟨.of .lda .immediate, .value 0x10⟩)⟩,
    ⟨0xFFFF, [0x4C], some (.data (.bytes [0x4C]))⟩] := by
  have hstop : (⟨[topSegment]⟩ : Image).list 0x10000 0x10000 = [] := list_done (by decide)
  have hcut := @list_mapped ⟨[topSegment]⟩ 0x10000 0xFFFF (by decide) topSegment rfl
    (.data (.bytes [0x4C])) (by decide +kernel)
  have hload := @list_mapped ⟨[topSegment]⟩ 0x10000 0xFFFD (by decide) topSegment rfl
    (.instruction ⟨.of .lda .immediate, .value 0x10⟩) (by decide +kernel)
  have hbyte := @list_mapped ⟨[topSegment]⟩ 0x10000 0xFFFC (by decide) topSegment rfl
    (.data (.bytes [0x02])) (by decide +kernel)
  apply hbyte.trans
  apply congrArg (_ :: ·)
  apply hload.trans
  apply congrArg (_ :: ·)
  apply hcut.trans
  exact congrArg (_ :: ·) hstop

theorem listing_reassembles_top :
    (⟨[topSegment]⟩ : Image).Tiles 0x10000 0xFFFC
        ((⟨[topSegment]⟩ : Image).listing 0xFFFC 0x10000) ∧
      ∃ p, Source.parseLines 4 [".byte $02".toList, "lda #$10".toList, ".byte $4c".toList] =
          .ok p ∧
        p.build true = .ok #[0x02, 0xA9, 0x10, 0x4C] := by
  have himg : (⟨[topSegment]⟩ : Image).Loaded :=
    @Loaded.file #[0x02, 0xA9, 0x10, 0x4C] 0xFFFC 0 none _ rfl
  obtain ⟨htiles, hbuild⟩ := listing_reassembles himg 0xFFFC (Nat.le_refl 0x10000)
  constructor
  · exact htiles
  · rw [listing_top] at hbuild
    obtain ⟨p, hp, hb⟩ := hbuild 4 (by decide)
    exact ⟨p, (congrArg (Source.parseLines 4) (by decide +kernel)).trans hp, hb⟩

end Image

end M6502
