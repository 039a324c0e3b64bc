import M6502.Image.Listing
import M6502.Proofs.Image.Tiling
import Mathlib.Data.List.Perm.Subperm

/-!
# Where the lines of a range lie

Positions only grow, and as long as they stay in the address space they are
the addresses of their lines. A listing leaves the address space when it is
asked to go on behind its end and finds memory mapped all the way there; it
then starts again at address zero, outside of the range.
-/

set_option autoImplicit false

namespace M6502

structure Within (start : UInt16) (stop : Nat) (lines : List ImageLine) : Prop where
  ascending : lines.Pairwise fun l k => l.addr < k.addr
  inside : ∀ l ∈ lines, start ≤ l.addr ∧ l.addr.toNat < stop
  nodup : (lines.map (·.addr)).Nodup
  length_le : lines.length ≤ 0x10000

theorem Within.of {start : UInt16} {stop : Nat} {lines : List ImageLine}
    (ha : lines.Pairwise fun l k => l.addr < k.addr)
    (hi : ∀ l ∈ lines, start ≤ l.addr ∧ l.addr.toNat < stop) : Within start stop lines where
  ascending := ha
  inside := hi
  nodup := List.pairwise_map.2 (ha.imp fun h => UInt16.ne_of_lt h)
  length_le := by
    have hnodup : (lines.map (·.addr.toNat)).Nodup :=
      List.pairwise_map.2 (ha.imp fun h => Nat.ne_of_lt (UInt16.lt_iff_toNat_lt.1 h))
    have hsub : lines.map (·.addr.toNat) ⊆ List.range 0x10000 := by
      intro n hn
      obtain ⟨l, -, rfl⟩ := List.mem_map.1 hn
      exact List.mem_range.2 l.addr.toNat_lt
    have hle := (hnodup.subperm hsub).length_le
    rwa [List.length_map, List.length_range] at hle

namespace Image

variable {img : Image} {stop position : Nat}

/-- The item at an address ends in its segment, so in front of it everything is mapped. -/
theorem item_mapped (himg : img.Ascends) (hposition : position < 0x10000) {s : Segment}
    (hs : img.segmentAt? (UInt16.ofNat position) = some s) :
    position + (s.itemAt (UInt16.ofNat position)).length ≤ 0x10000 ∧
      ∀ k < (s.itemAt (UInt16.ofNat position)).length,
        img.readByte? (UInt16.ofNat (position + k)) ≠ none := by
  have hmem : s ∈ img.segments := List.mem_of_find?_eq_some hs
  have hholds : s.holds (UInt16.ofNat position) = true := by
    have hfound := @List.find?_some _ _ s img.segments hs
    exact hfound
  obtain ⟨-, -, -, hfit⟩ := Segment.itemAt_spec hholds
  have haddr := toNat_position (Nat.le_refl 0x10000) hposition
  have hlow := (Segment.holds_iff.1 hholds).1
  have hbelow := himg.stop_le s hmem
  rw [Segment.index, haddr] at hfit
  rw [haddr] at hlow
  have hend : position + (s.itemAt (UInt16.ofNat position)).length ≤ s.stop := by
    unfold Segment.stop
    omega
  refine ⟨Nat.le_trans hend hbelow, fun k hk => ?_⟩
  have hkept : s.holds (UInt16.ofNat (position + k)) = true := by
    rw [Segment.holds_iff, toNat_position (Nat.le_refl 0x10000) (by omega)]
    omega
  rw [readByte?, himg.segmentAt?_eq hmem hkept]
  exact Option.some_ne_none _

theorem lt_of_free
    (h : stop ≤ 0x10000 ∨ ∃ addr : UInt16, position ≤ addr.toNat ∧ img.readByte? addr = none)
    (hlt : position < stop) : position < 0x10000 := by
  rcases h with h | ⟨addr, hle, -⟩
  · exact Nat.lt_of_lt_of_le hlt h
  · exact Nat.lt_of_le_of_lt hle addr.toNat_lt

/-- A listing that ends in the address space, or finds an address that is not mapped on its way
there, stays in its range. -/
theorem list_within (himg : img.Ascends)
    (h : stop ≤ 0x10000 ∨ ∃ addr : UInt16, position ≤ addr.toNat ∧ img.readByte? addr = none) :
    (img.list stop position).Pairwise (fun l k => l.addr < k.addr) ∧
      ∀ l ∈ img.list stop position, position ≤ l.addr.toNat ∧ l.addr.toNat < stop := by
  induction position using Image.list.induct img stop with
  | case1 position hlt addr hnone =>
    have hposition := lt_of_free h hlt
    rw [list_unmapped hlt hnone, List.forall_mem_singleton,
      toNat_position (Nat.le_refl 0x10000) hposition]
    exact ⟨List.pairwise_singleton _ _, Nat.le_refl _, hlt⟩
  | case2 position hlt addr s hs item ih =>
    have hposition := lt_of_free h hlt
    obtain ⟨hend, hmapped⟩ := item_mapped himg hposition hs
    have haddr := toNat_position (Nat.le_refl 0x10000) hposition
    have hpos : 0 < item.length := s.length_itemAt_pos _
    have hrest : stop ≤ 0x10000 ∨ ∃ other : UInt16,
        position + item.length ≤ other.toNat ∧ img.readByte? other = none := by
      rcases h with h | ⟨other, hle, hnone⟩
      · exact .inl h
      · refine .inr ⟨other, Nat.le_of_not_lt fun hin => ?_, hnone⟩
        refine hmapped (other.toNat - position) (Nat.sub_lt_left_of_lt_add hle hin) ?_
        rwa [Nat.add_sub_cancel' hle, UInt16.ofNat_toNat]
    obtain ⟨hascending, hinside⟩ := ih hrest
    rw [list_mapped hlt hs rfl]
    refine ⟨List.pairwise_cons.2 ⟨fun l hl => ?_, hascending⟩,
      List.forall_mem_cons.2 ⟨?_, fun l hl => ?_⟩⟩
    · have hbehind := (hinside l hl).1
      rw [UInt16.lt_iff_toNat_lt]
      show (UInt16.ofNat position).toNat < _
      omega
    · show position ≤ (UInt16.ofNat position).toNat ∧ (UInt16.ofNat position).toNat < stop
      omega
    · have hbehind := hinside l hl
      omega
  | case3 position hge =>
    rw [list_done hge]
    exact ⟨.nil, fun l hl => absurd hl List.not_mem_nil⟩

/-- Behind the end of the address space a listing goes on as it would from address zero. -/
theorem list_beyond (img : Image) (stop position : Nat) :
    img.list (stop + 0x10000) (position + 0x10000) = img.list stop position := by
  have haddr (position : Nat) : UInt16.ofNat (position + 0x10000) = UInt16.ofNat position := by
    apply UInt16.toNat_inj.1
    rw [UInt16.toNat_ofNat', UInt16.toNat_ofNat']
    omega
  induction position using Image.list.induct img stop with
  | case1 position hlt addr hnone =>
    have hbeyond : img.segmentAt? (UInt16.ofNat (position + 0x10000)) = none := by
      rwa [haddr]
    rw [list_unmapped hlt hnone, list_unmapped (by omega) hbeyond, haddr]
  | case2 position hlt addr s hs item ih =>
    have hbeyond : img.segmentAt? (UInt16.ofNat (position + 0x10000)) = some s := by
      rwa [haddr]
    have hplace : position + 0x10000 + item.length = position + item.length + 0x10000 := by omega
    rw [list_mapped hlt hs rfl, list_mapped (by omega) hbeyond (by rw [haddr]), hplace, ih, haddr]
  | case3 position hge => rw [list_done hge, list_done (by omega)]

/-- Where everything is mapped, a listing comes to the end of the address space and goes on. -/
theorem list_through (himg : img.Ascends) (hstop : 0x10000 ≤ stop) (hposition : position ≤ 0x10000)
    (h : ∀ addr : UInt16, position ≤ addr.toNat → img.readByte? addr ≠ none) :
    img.list stop position = img.list 0x10000 position ++ img.list stop 0x10000 := by
  induction position using Image.list.induct img 0x10000 with
  | case1 position hlt addr hnone =>
    refine absurd (readByte?_unmapped hnone) (h _ ?_)
    exact Nat.le_of_eq (toNat_position (Nat.le_refl 0x10000) hlt).symm
  | case2 position hlt addr s hs item ih =>
    have hrest := ih (item_mapped himg hlt hs).1 fun other hle => h other (by omega)
    rw [list_mapped hlt hs rfl, list_mapped (by omega) hs rfl, hrest, List.cons_append]
  | case3 position hge =>
    have hend : position = 0x10000 := by omega
    rw [hend, list_done (Nat.lt_irrefl _), List.nil_append]

theorem list_head (img : Image) {stop position : Nat} (h : position < stop) :
    ∃ l lines, img.list stop position = l :: lines ∧ l.addr = UInt16.ofNat position := by
  cases hs : img.segmentAt? (UInt16.ofNat position) with
  | none => exact ⟨_, _, list_unmapped h hs, rfl⟩
  | some s => exact ⟨_, _, list_mapped h hs rfl, rfl⟩

/-- A listing that begins anew at address zero is not within its range. -/
theorem not_within_of_anew {start : UInt16} {lines : List ImageLine} (hstop : 0x10000 < stop)
    (h : lines = img.listing start 0x10000 ++ img.listing 0 (stop - 0x10000)) :
    ¬ Within start stop lines := by
  intro hw
  have hsome : 0 < stop - 0x10000 := Nat.sub_pos_of_lt hstop
  obtain ⟨l, ls, hl, -⟩ := img.list_head start.toNat_lt
  obtain ⟨k, ks, hk, hzero⟩ := img.list_head hsome
  have hl : img.listing start 0x10000 = l :: ls := hl
  have hk : img.listing 0 (stop - 0x10000) = k :: ks := hk
  have hascending := hw.ascending
  rw [h, hl, hk, List.pairwise_append] at hascending
  have hlt := UInt16.lt_iff_toNat_lt.1 (hascending.2.2 l List.mem_cons_self k List.mem_cons_self)
  rw [hzero] at hlt
  exact Nat.not_lt_zero _ hlt

/-- The listing of a range of a loaded image stays in the range exactly when the range ends in the
address space or the image leaves an address unmapped between its start and the end of the address
space. In the one other case it goes on behind the last address with what memory holds from address
zero on. -/
theorem listing_within {img : Image} (himg : img.Loaded) (start : UInt16) (stop : Nat) :
    (Within start stop (img.listing start stop) ↔
      stop ≤ 0x10000 ∨ ∃ addr, start ≤ addr ∧ img.readByte? addr = none) ∧
    (0x10000 ≤ stop → (∀ addr, start ≤ addr → img.readByte? addr ≠ none) →
      img.listing start stop = img.listing start 0x10000 ++ img.listing 0 (stop - 0x10000)) := by
  have hanew (hstop : 0x10000 ≤ stop) (h : ∀ addr, start ≤ addr → img.readByte? addr ≠ none) :
      img.listing start stop = img.listing start 0x10000 ++ img.listing 0 (stop - 0x10000) := by
    have hthrough := list_through himg.ascends hstop (Nat.le_of_lt start.toNat_lt) fun addr hle =>
      h addr (UInt16.le_iff_toNat_le.2 hle)
    have hbeyond := img.list_beyond (stop - 0x10000) 0
    rw [Nat.sub_add_cancel hstop, Nat.zero_add] at hbeyond
    rw [listing, hthrough, hbeyond]
    rfl
  refine ⟨⟨fun hw => ?_, fun h => ?_⟩, hanew⟩
  · by_contra hnot
    rw [not_or] at hnot
    have hstop : 0x10000 < stop := Nat.lt_of_not_le hnot.1
    refine not_within_of_anew hstop (hanew (Nat.le_of_lt hstop) fun addr hle hnone => ?_) hw
    exact hnot.2 ⟨addr, hle, hnone⟩
  · have hfree : stop ≤ 0x10000 ∨ ∃ addr : UInt16,
        start.toNat ≤ addr.toNat ∧ img.readByte? addr = none :=
      h.imp_right fun ⟨addr, hle, hnone⟩ => ⟨addr, UInt16.le_iff_toNat_le.1 hle, hnone⟩
    have hlist := list_within himg.ascends hfree
    exact .of hlist.1 fun l hl => (hlist.2 l hl).imp_left UInt16.le_iff_toNat_le.2

def nopSegment : Segment :=
  ⟨"segment0", 0, Array.replicate 0x10000 0xEA, "raw"⟩

theorem loaded_nops : (⟨[nopSegment]⟩ : Image).Loaded := by
  have hfile : ofFile (Array.replicate 0x10000 0xEA) 0 0 none = .ok ⟨[nopSegment]⟩ := by
    simp [ofFile, nopSegment]
  exact .file hfile

theorem holds_nops (addr : UInt16) : nopSegment.holds addr = true := by
  have haddr := addr.toNat_lt
  have hsize : nopSegment.bytes.size = 0x10000 := Array.size_replicate
  rw [Segment.holds_iff, Segment.stop, hsize, nopSegment, UInt16.toNat_zero]
  omega

theorem segmentAt?_nops (addr : UInt16) :
    (⟨[nopSegment]⟩ : Image).segmentAt? addr = some nopSegment :=
  loaded_nops.ascends.segmentAt?_eq List.mem_cons_self (holds_nops addr)

theorem itemAt_nops (addr : UInt16) :
    nopSegment.itemAt addr = .instruction ⟨.of .nop .implied, .none⟩ := by
  have haddr := addr.toNat_lt
  have hnop : Encoding.ofOpcode? 0xEA = some (.of .nop .implied) := by decide +kernel
  have hbytes : (nopSegment.bytes.extract (nopSegment.index addr)
      (nopSegment.index addr + 3)).toList =
        0xEA :: List.replicate (min (addr.toNat + 3) 0x10000 - addr.toNat - 1) 0xEA := by
    rw [nopSegment, Segment.index, UInt16.toNat_zero, Nat.sub_zero, Array.extract_replicate,
      Array.toList_replicate, ← List.replicate_succ]
    congr 1
    omega
  rw [Segment.itemAt, Instruction.decodeAt?, hbytes, Instruction.decode?]
  simp only [hnop]
  rfl

theorem addrs_nops {stop position : Nat} (h : position < stop) :
    ((⟨[nopSegment]⟩ : Image).list stop position).map (·.addr) =
      UInt16.ofNat position ::
        ((⟨[nopSegment]⟩ : Image).list stop (position + 1)).map (·.addr) := by
  rw [list_mapped h (segmentAt?_nops _) (itemAt_nops _)]
  rfl

/-- The range of the last address, and one that goes on behind it. -/
theorem listing_within_last :
    Within 0xFFFF 0x10000 ((⟨[nopSegment]⟩ : Image).listing 0xFFFF 0x10000) ∧
      (⟨[nopSegment]⟩ : Image).listing 0xFFFF 0x10001 =
        (⟨[nopSegment]⟩ : Image).listing 0xFFFF 0x10000 ++
          (⟨[nopSegment]⟩ : Image).listing 0 1 := by
  constructor
  · exact (listing_within loaded_nops 0xFFFF 0x10000).1.2 (.inl (Nat.le_refl _))
  · refine (listing_within loaded_nops 0xFFFF 0x10001).2 (by decide) fun addr _ => ?_
    rw [readByte?, segmentAt?_nops]
    exact Option.some_ne_none _

/-- A range behind the end of the address space lists its first address. -/
theorem listing_anew :
    (⟨[nopSegment]⟩ : Image).Loaded ∧
      ((⟨[nopSegment]⟩ : Image).listing 0xFFFF 0x10001).map (·.addr) = [0xFFFF, 0] ∧
      ¬ Within 0xFFFF 0x10001 ((⟨[nopSegment]⟩ : Image).listing 0xFFFF 0x10001) := by
  have haddrs : ((⟨[nopSegment]⟩ : Image).listing 0xFFFF 0x10001).map (·.addr) = [0xFFFF, 0] := by
    have hdone : (⟨[nopSegment]⟩ : Image).list 0x10001 (0xFFFF + 1 + 1) = [] :=
      list_done (Nat.lt_irrefl _)
    have hstart : (0xFFFF : UInt16).toNat = 0xFFFF := rfl
    rw [listing, hstart, addrs_nops (by decide), addrs_nops (by decide), hdone]
    rfl
  refine ⟨loaded_nops, haddrs, fun hw => ?_⟩
  have hascending := List.pairwise_map.2 hw.ascending
  rw [haddrs] at hascending
  exact absurd hascending (by decide)

end Image

end M6502
