import M6502.Image.Cartridge

/-!
# Images that were loaded

Whatever an image was loaded from, its segments lie in the address space and
do not overlap, so an address that a segment holds belongs to that segment.
-/

set_option autoImplicit false

namespace M6502

namespace Segment

theorem holds_iff {s : Segment} {addr : UInt16} :
    s.holds addr = true ↔ s.base.toNat ≤ addr.toNat ∧ addr.toNat < s.stop := by
  simp only [holds, Bool.and_eq_true, decide_eq_true_eq]

end Segment

namespace Image

inductive Loaded : Image → Prop
  | file {bytes : Array UInt8} {base : UInt16} {skip : Nat} {limit : Option Nat} {img : Image}
      (h : ofFile bytes base skip limit = .ok img) : Loaded img
  | cartridge {bytes : Array UInt8} {c : Cartridge} (h : Cartridge.ofFile bytes = .ok c) :
      Loaded c.image

structure Ascends (img : Image) : Prop where
  stop_le : ∀ s ∈ img.segments, s.stop ≤ 0x10000
  pairwise : img.segments.Pairwise fun s t => s.stop ≤ t.base.toNat

/-- An address that a segment holds belongs to the segment. -/
theorem Ascends.segmentAt?_eq {img : Image} (h : img.Ascends) {s : Segment} {addr : UInt16}
    (hs : s ∈ img.segments) (ha : s.holds addr = true) : img.segmentAt? addr = some s := by
  obtain ⟨segments⟩ := img
  have hpair := h.pairwise
  clear h
  show segments.find? (·.holds addr) = some s
  induction segments with
  | nil => exact absurd hs List.not_mem_nil
  | cons t segments ih =>
    obtain ⟨hfirst, hrest⟩ := List.pairwise_cons.1 hpair
    rcases List.mem_cons.1 hs with rfl | hs
    · rw [List.find?_cons, ha]
    · have hbelow : t.stop ≤ s.base.toNat := hfirst s hs
      have hfree : t.holds addr = false := by
        rw [Segment.holds_iff] at ha
        rw [← Bool.not_eq_true, Segment.holds_iff]
        omega
      rw [List.find?_cons, hfree]
      exact ih hs hrest

theorem ascends_of_file {bytes : Array UInt8} {base : UInt16} {skip : Nat} {limit : Option Nat}
    {img : Image} (h : ofFile bytes base skip limit = .ok img) : img.Ascends := by
  unfold ofFile at h
  split at h
  · contradiction
  · dsimp only at h
    split at h
    · contradiction
    · split at h
      · contradiction
      · rename_i hfit
        rw [← Except.ok.inj h]
        constructor
        · rw [List.forall_mem_singleton]
          exact Nat.le_of_not_lt hfit
        · exact List.pairwise_singleton _ _

end Image

namespace Cartridge

theorem bank_cases {banks : UInt8} (h : ¬(banks = 0 ∨ 2 < banks)) : banks = 1 ∨ banks = 2 := by
  rw [not_or] at h
  have hzero : banks.toNat ≠ 0 := fun hz => h.1 (UInt8.toNat_inj.1 hz)
  have hle : banks.toNat ≤ 2 := Nat.le_of_not_lt h.2
  have hcases : banks.toNat = 1 ∨ banks.toNat = 2 := by omega
  rcases hcases with h1 | h2
  · exact .inl (UInt8.toNat_inj.1 h1)
  · exact .inr (UInt8.toNat_inj.1 h2)

theorem ascends_segments {banks : UInt8} {program : Array UInt8} (h : banks = 1 ∨ banks = 2)
    (hs : program.size = banks.toNat * programBank) :
    (⟨segments banks program⟩ : Image).Ascends := by
  unfold segments
  rcases h with rfl | rfl
  · have hsize : program.size = 0x4000 := hs
    have hmain : 0x8000 + program.size ≤ 0xC000 := by omega
    have hmirror : 0xC000 + program.size ≤ 0x10000 := by omega
    rw [if_pos rfl]
    constructor
    · rw [List.forall_mem_cons, List.forall_mem_singleton]
      exact ⟨Nat.le_trans hmain (by decide), hmirror⟩
    · rw [List.pairwise_pair]
      exact hmain
  · have hsize : program.size = 0x8000 := hs
    have hmain : 0x8000 + program.size ≤ 0x10000 := by omega
    rw [if_neg (by decide)]
    constructor
    · rw [List.forall_mem_singleton]
      exact hmain
    · exact List.pairwise_singleton _ _

theorem ascends_of_file {bytes : Array UInt8} {c : Cartridge} (h : ofFile bytes = .ok c) :
    c.image.Ascends := by
  unfold ofFile at h
  split at h
  · contradiction
  · rename_i header hheader
    split at h
    · contradiction
    · rename_i hbanks
      split at h
      · contradiction
      · rename_i hlong
        rw [← Except.ok.inj h]
        apply ascends_segments (bank_cases hbanks)
        have hstop : header.programStop ≤ header.pictureStop := Nat.le_add_right _ _
        have hstart : header.programStop =
            header.programStart + header.programBanks.toNat * programBank := rfl
        rw [Array.size_extract]
        omega

end Cartridge

theorem Image.Loaded.ascends {img : Image} (h : img.Loaded) : img.Ascends := by
  cases h with
  | file h => exact ascends_of_file h
  | cartridge h => exact Cartridge.ascends_of_file h

end M6502
