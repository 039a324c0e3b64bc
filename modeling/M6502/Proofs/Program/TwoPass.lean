import M6502.Proofs.Program.Placement

/-!
# Two passes agree

What the layout of a program makes of the items that calls appended: when it
succeeds, and which item each byte of the result comes from. The step lemmas
are about one item and a block, the run lemmas follow them through all items.
-/

set_option autoImplicit false

namespace M6502

theorem getElem?_overwrite_of_lt (cells : Array UInt8) (i : Nat) (bytes : List UInt8) {k : Nat}
    (hk : k < cells.size) :
    (overwrite cells i bytes)[k]? =
      if i ≤ k ∧ k < i + bytes.length then bytes[k - i]? else cells[k]? := by
  induction bytes generalizing cells i with
  | nil => rw [if_neg (by simp only [List.length_nil]; omega)]; rfl
  | cons b bytes ih =>
    rw [List.length_cons]
    rw [overwrite, ih _ _ (by rwa [Array.size_setIfInBounds]), Array.getElem?_setIfInBounds]
    rcases Nat.lt_trichotomy i k with hlt | rfl | hlt
    · obtain ⟨j, rfl⟩ := Nat.exists_eq_add_of_lt hlt
      rw [show i + j + 1 - (i + 1) = j by omega, show i + j + 1 - i = j + 1 by omega,
        List.getElem?_cons_succ, if_neg (show i ≠ i + j + 1 by omega)]
      simp only [show i + 1 ≤ i + j + 1 by omega, show i ≤ i + j + 1 by omega, true_and,
        show i + j + 1 < i + 1 + bytes.length ↔ i + j + 1 < i + (bytes.length + 1) by omega]
    · rw [if_neg (by omega), if_pos rfl, if_pos hk, if_pos (by omega), Nat.sub_self]
      rfl
    · rw [if_neg (by omega), if_neg (by omega), if_neg (by omega)]

theorem getElem?_overwrite (cells : Array UInt8) (i : Nat) (bytes : List UInt8)
    (h : i + bytes.length ≤ cells.size) (k : Nat) :
    (overwrite cells i bytes)[k]? =
      if i ≤ k ∧ k < i + bytes.length then bytes[k - i]? else cells[k]? := by
  by_cases hk : k < cells.size
  · exact getElem?_overwrite_of_lt cells i bytes hk
  · rw [if_neg (by omega), Array.getElem?_eq_none (Nat.le_of_not_lt hk),
      Array.getElem?_eq_none (by rw [size_overwrite]; exact Nat.le_of_not_lt hk)]

namespace Block

def byte (b : Block) (i : Nat) : UInt8 :=
  b.cells[i]?.getD 0

theorem emit_ok_iff {b c : Block} {bytes : List UInt8} :
    b.emit bytes = .ok c ↔ b.cursor + bytes.length ≤ b.size ∧
      c = ⟨overwrite (b.cells ++ Array.replicate (b.cursor + bytes.length - b.cells.size) 0)
        b.cursor bytes, b.size, b.cursor + bytes.length⟩ := by
  simp only [emit]
  split
  · rename_i h
    simp only [h, true_and, Except.ok.injEq]
    exact eq_comm
  · rename_i h
    exact iff_of_false (by simp) fun hc => h hc.1

theorem byte_emit {b c : Block} {bytes : List UInt8} (h : b.emit bytes = .ok c) (i : Nat) :
    c.byte i = if b.cursor ≤ i ∧ i < b.cursor + bytes.length then bytes.getD (i - b.cursor) 0
      else b.byte i := by
  obtain ⟨-, rfl⟩ := emit_ok_iff.1 h
  have hroom : b.cursor + bytes.length ≤
      (b.cells ++ Array.replicate (b.cursor + bytes.length - b.cells.size) (0 : UInt8)).size := by
    rw [Array.size_append, Array.size_replicate]
    omega
  rw [byte, getElem?_overwrite _ _ _ hroom]
  split
  · rw [List.getD_eq_getElem?_getD]
  · rw [byte, Array.getElem?_append]
    split
    · rfl
    · rename_i hi
      rw [Array.getElem?_replicate, Array.getElem?_eq_none (Nat.le_of_not_lt hi)]
      split <;> rfl

end Block

namespace Program

open Placement

theorem place_unit {p : Program} {b : Block} {item : Item} (h : item.isUnit = true) :
    p.place b item = p.encode b.cursor item >>= b.emit := by
  cases item with
  | seek target => contradiction
  | instruction i => rfl
  | data d => rfl

structure Places (p : Program) (u : Placement) : Prop where
  resolves : p.Resolves u.position u.item
  room : u.stop ≤ p.size

theorem place_ok_iff {p : Program} {b : Block} {item : Item} (hb : b.size = p.size) :
    (∃ c, p.place b item = .ok c) ↔ (item.isUnit = true → p.Places ⟨b.cursor, item⟩) := by
  cases hu : item.isUnit with
  | false =>
    cases item with
    | seek target => exact iff_of_true ⟨_, rfl⟩ nofun
    | instruction i => contradiction
    | data d => contradiction
  | true =>
    simp only [true_imp_iff, place_unit hu, bind_ok_iff, Block.emit_ok_iff]
    constructor
    · rintro ⟨c, bs, hbs, hroom, -⟩
      refine ⟨encode_ok_iff.1 ⟨bs, hbs⟩, ?_⟩
      rw [length_encode hbs, hb] at hroom
      exact hroom
    · rintro ⟨hr, hroom⟩
      obtain ⟨bs, hbs⟩ := encode_ok_iff.2 hr
      refine ⟨_, bs, hbs, ?_, rfl⟩
      rw [length_encode hbs, hb]
      exact hroom

theorem place_cases {p : Program} {b c : Block} {item : Item} (h : p.place b item = .ok c) :
    (∃ target, item = .seek target ∧ c = { b with cursor := target }) ∨
      (item.isUnit = true ∧ ∃ bs, p.encode b.cursor item = .ok bs ∧ b.emit bs = .ok c) := by
  cases item with
  | seek target => exact .inl ⟨target, rfl, (Except.ok.inj h).symm⟩
  | instruction i => exact .inr ⟨rfl, bind_ok_iff.1 h⟩
  | data d => exact .inr ⟨rfl, bind_ok_iff.1 h⟩

theorem place_frame {p : Program} {b c : Block} {item : Item} (h : p.place b item = .ok c) :
    c.size = b.size ∧ c.cursor = item.advance b.cursor := by
  rcases place_cases h with ⟨target, rfl, rfl⟩ | ⟨hu, bs, hbs, hc⟩
  · exact ⟨rfl, rfl⟩
  · obtain ⟨-, rfl⟩ := Block.emit_ok_iff.1 hc
    rw [Item.advance_of_unit hu, length_encode hbs]
    exact ⟨rfl, rfl⟩

def Shows (p : Program) (us : List Placement) (i : Nat) (below b : UInt8) : Prop :=
  match lastOver us i with
  | none => b = below
  | some u => ∃ bs, p.encode u.position u.item = .ok bs ∧ bs[i - u.position]? = some b

theorem Shows.append {p : Program} {us vs : List Placement} {i : Nat} {a b c : UInt8}
    (hu : p.Shows us i a b) (hv : p.Shows vs i b c) : p.Shows (us ++ vs) i a c := by
  unfold Shows at *
  rw [lastOver_append]
  cases h : lastOver vs i with
  | none =>
    rw [h] at hv
    rw [show c = b from hv]
    exact hu
  | some v =>
    rw [h] at hv
    exact hv

theorem byte_place {p : Program} {b c : Block} {item : Item} (h : p.place b item = .ok c)
    (i : Nat) : p.Shows (replay b.cursor [item]) i (b.byte i) (c.byte i) := by
  rcases place_cases h with ⟨target, rfl, rfl⟩ | ⟨hu, bs, hbs, hc⟩
  · rfl
  · have hb := Block.byte_emit hc i
    have hl : lastOver (replay b.cursor [item]) i =
        if b.cursor ≤ i ∧ i < b.cursor + bs.length then some ⟨b.cursor, item⟩ else none := by
      rw [replay, if_pos hu, replay, List.append_nil, lastOver_singleton, stop, length_encode hbs]
    rw [Shows, hl]
    split at hb
    · rename_i hi
      rw [if_pos hi]
      refine ⟨bs, hbs, ?_⟩
      have hlt : i - b.cursor < bs.length := by omega
      rw [hb, List.getD_eq_getElem?_getD, List.getElem?_eq_getElem hlt]
      rfl
    · rename_i hi
      rw [if_neg hi]
      exact hb

theorem foldlM_place_ok_iff {p : Program} {b : Block} (items : List Item) (hb : b.size = p.size) :
    (∃ c, items.foldlM p.place b = .ok c) ↔ ∀ u ∈ replay b.cursor items, p.Places u := by
  induction items generalizing b with
  | nil => exact iff_of_true ⟨b, rfl⟩ fun u hu => absurd hu List.not_mem_nil
  | cons item items ih =>
    have hhead : (∀ u ∈ if item.isUnit then [⟨b.cursor, item⟩] else [], p.Places u) ↔
        (item.isUnit = true → p.Places ⟨b.cursor, item⟩) := by
      cases item.isUnit <;> simp
    simp only [List.foldlM_cons, bind_ok_iff, replay, List.forall_mem_append, hhead,
      ← place_ok_iff hb]
    constructor
    · rintro ⟨d, c, hc, hd⟩
      obtain ⟨hs, hp⟩ := place_frame hc
      have hrest := (ih (hs.trans hb)).1 ⟨d, hd⟩
      rw [hp] at hrest
      exact ⟨⟨c, hc⟩, hrest⟩
    · rintro ⟨⟨c, hc⟩, hrest⟩
      obtain ⟨hs, hp⟩ := place_frame hc
      rw [← hp] at hrest
      obtain ⟨d, hd⟩ := (ih (hs.trans hb)).2 hrest
      exact ⟨d, c, hc, hd⟩

theorem foldlM_place_frame {p : Program} {b c : Block} {items : List Item}
    (h : items.foldlM p.place b = .ok c) :
    c.size = b.size ∧ c.cursor = items.foldl Item.advance b.cursor := by
  induction items generalizing b with
  | nil => rw [← Except.ok.inj h]; exact ⟨rfl, rfl⟩
  | cons item items ih =>
    rw [List.foldlM_cons, bind_ok_iff] at h
    obtain ⟨d, hd, hc⟩ := h
    obtain ⟨hs, hp⟩ := place_frame hd
    obtain ⟨hs', hp'⟩ := ih hc
    exact ⟨hs'.trans hs, hp'.trans (by rw [hp, List.foldl_cons])⟩

theorem byte_foldlM_place {p : Program} {b c : Block} {items : List Item}
    (h : items.foldlM p.place b = .ok c) (i : Nat) :
    p.Shows (replay b.cursor items) i (b.byte i) (c.byte i) := by
  induction items generalizing b with
  | nil => rw [← Except.ok.inj h]; rfl
  | cons item items ih =>
    rw [List.foldlM_cons, bind_ok_iff] at h
    obtain ⟨d, hd, hc⟩ := h
    -- later items win, so what this one left is only what the rest shows below
    have htail := ih hc
    rw [(place_frame hd).2] at htail
    have hcons := replay_append b.cursor [item] items
    rw [List.singleton_append, List.foldl_cons, List.foldl_nil] at hcons
    rw [hcons]
    exact (byte_place hd i).append htail

theorem getElem?_fitted (n : Nat) (cells : Array UInt8) (i : Nat) :
    (fitted n cells)[i]? = if i < n then some (cells[i]?.getD 0) else none := by
  rw [fitted, Array.getElem?_append, Array.getElem?_extract, Array.getElem?_replicate,
    Array.size_extract, Nat.sub_zero, Nat.zero_add]
  by_cases hn : i < n
  · by_cases hc : i < cells.size
    · rw [if_pos (by omega), if_pos (by omega), if_pos hn, Array.getElem?_eq_getElem hc]
      rfl
    · rw [if_neg (by omega), if_pos (by omega), if_pos hn,
        Array.getElem?_eq_none (Nat.le_of_not_lt hc)]
      rfl
  · rw [if_neg (by omega), if_neg (by omega), if_neg hn]

theorem take_fitted {m n : Nat} (cells : Array UInt8) (h : m ≤ n) :
    (fitted n cells).take m = fitted m cells := by
  apply Array.ext_getElem?
  intro i
  rw [Array.take_eq_extract, Array.getElem?_extract, getElem?_fitted, getElem?_fitted, size_fitted,
    Nat.zero_add, Nat.sub_zero, Nat.min_eq_left h]
  by_cases hm : i < m
  · rw [if_pos hm, if_pos (by omega), if_pos hm]
  · rw [if_neg hm, if_neg hm]

theorem build_ok_iff {p : Program} {clamp : Bool} {bytes : Array UInt8} :
    p.build clamp = .ok bytes ↔ ∃ b, p.layout = .ok b ∧
      bytes = fitted (if clamp then min b.cursor b.size else b.size) b.cells := by
  rw [build, bind_ok_iff]
  refine exists_congr fun b => and_congr_right fun _ => ?_
  exact ⟨fun h => (Except.ok.inj h).symm, fun h => congrArg Except.ok h.symm⟩

theorem layout_eq (p : Program) : p.layout = p.items.toList.foldlM p.place (.cleared p.size) :=
  Array.foldlM_toList.symm

theorem build_exists_iff (p : Program) :
    (∃ bytes, p.build false = .ok bytes) ↔ ∀ u ∈ replay 0 p.items.toList, p.Places u := by
  rw [build, exists_bind_pure_ok_iff, layout_eq]
  exact foldlM_place_ok_iff _ rfl

theorem bytes_of_build {p : Program} {bytes : Array UInt8} (h : p.build false = .ok bytes) :
    bytes.size = p.size ∧
      ∀ i < p.size, ∃ b, bytes[i]? = some b ∧ p.Shows (replay 0 p.items.toList) i 0 b := by
  obtain ⟨b, hb, rfl⟩ := build_ok_iff.1 h
  rw [layout_eq] at hb
  have hsize : b.size = p.size := (foldlM_place_frame hb).1
  rw [if_neg Bool.false_ne_true, hsize]
  refine ⟨size_fitted _ _, ?_⟩
  intro i hi
  refine ⟨b.byte i, ?_, byte_foldlM_place hb i⟩
  rw [getElem?_fitted, if_pos hi]
  rfl

theorem build_clamped (p : Program) :
    p.build true = (p.build false).map fun bytes =>
      bytes.take (min (p.items.toList.foldl Item.advance 0) p.size) := by
  rw [build, build]
  cases hb : p.layout with
  | error e => rfl
  | ok b =>
    rw [layout_eq] at hb
    obtain ⟨hs, hc⟩ := foldlM_place_frame hb
    have hcursor : b.cursor = p.items.toList.foldl Item.advance 0 := hc
    have hsize : b.size = p.size := hs
    simp only [bind, Except.bind, pure, Except.pure, Except.map, if_true]
    rw [← hcursor, ← hsize, if_neg Bool.false_ne_true, take_fitted _ (Nat.min_le_right _ _)]

/-- Laying out succeeds when all placements can be laid out, and every byte is the one that the
last placement over it has. A clamped build is the front of the whole one. -/
theorem build_of_placements (size : Nat) (calls : List Call) :
    let p := (empty size).attemptAll calls
    let us := (empty size).placements calls
    ((∃ bytes, p.build false = .ok bytes) ↔ ∀ u ∈ us, p.Places u) ∧
      (∀ bytes, p.build false = .ok bytes →
        bytes.size = size ∧ ∀ i < size, ∃ b, bytes[i]? = some b ∧ p.Shows us i 0 b) ∧
      p.build true = (p.build false).map fun bytes => bytes.take (min p.position size) := by
  have hsize : ((empty size).attemptAll calls).size = size := size_attemptAll _ _
  have hbytes (bytes : Array UInt8) :=
    @bytes_of_build ((empty size).attemptAll calls) bytes
  have hclamped := build_clamped ((empty size).attemptAll calls)
  rw [hsize, ← placements_empty] at hbytes
  rw [hsize, ← position_eq_foldl] at hclamped
  refine ⟨?_, hbytes, hclamped⟩
  rw [placements_empty]
  exact build_exists_iff _

/-- The later of two writes shows where they meet. -/
theorem build_of_placements_overlapping :
    ∃ bytes, ((empty 4).attemptAll
        [.putBytes [1, 2, 3], .moveTo 1, .putBytes [9]]).build false = .ok bytes ∧
      bytes.size = 4 ∧ bytes[1]? = some 9 := by
  obtain ⟨hok, hbytes, -⟩ := build_of_placements 4 [.putBytes [1, 2, 3], .moveTo 1, .putBytes [9]]
  obtain ⟨bytes, hb⟩ := hok.2 (by
    intro u hu
    rcases List.mem_cons.1 hu with rfl | hu
    · exact ⟨resolves_of_reference_none rfl rfl, by decide⟩
    · rw [List.mem_singleton.1 hu]
      exact ⟨resolves_of_reference_none rfl rfl, by decide⟩)
  obtain ⟨hsize, hall⟩ := hbytes bytes hb
  obtain ⟨b, hget, bs, hbs, h9⟩ := hall 1 (by decide)
  refine ⟨bytes, hb, hsize, ?_⟩
  rw [hget, ← h9, ← Except.ok.inj hbs]
  rfl

end Program

end M6502
