import M6502.Proofs.Program.TwoPass

/-!
# Programs without seeks

Where no item moves the position back or forth, the layout writes one item
behind the other, so its bytes are the encodings of the items in a row.
-/

set_option autoImplicit false

namespace M6502

theorem overwrite_end (cells : Array UInt8) (bytes : List UInt8) :
    overwrite (cells ++ Array.replicate (cells.size + bytes.length - cells.size) 0)
      cells.size bytes = cells ++ bytes.toArray := by
  apply Array.ext_getElem?
  intro i
  have hroom : cells.size + bytes.length ≤ (cells ++
      Array.replicate (cells.size + bytes.length - cells.size) (0 : UInt8)).size := by
    rw [Array.size_append, Array.size_replicate]
    omega
  have hbytes : bytes.toArray[i - cells.size]? = bytes[i - cells.size]? := List.getElem?_toArray
  rw [getElem?_overwrite _ _ _ hroom, Array.getElem?_append, Array.getElem?_append]
  by_cases hlow : i < cells.size
  · rw [if_neg (by omega), if_pos hlow, if_pos hlow]
  · rw [if_neg hlow, if_neg hlow, hbytes]
    by_cases hhigh : i < cells.size + bytes.length
    · rw [if_pos (by omega)]
    · rw [if_neg (by omega), List.getElem?_eq_none (by omega), Array.getElem?_replicate,
        if_neg (by omega)]

namespace Program

def encodeFrom (p : Program) (cursor : Nat) : List Item → Except ProgramError (List UInt8)
  | [] => .ok []
  | item :: items => do
    let bs ← p.encode cursor item
    let rest ← p.encodeFrom (cursor + item.length) items
    return bs ++ rest

theorem encodeFrom_cons_ok_iff {p : Program} {cursor : Nat} {item : Item} {items : List Item}
    {bytes : List UInt8} :
    p.encodeFrom cursor (item :: items) = .ok bytes ↔
      ∃ bs rest, p.encode cursor item = .ok bs ∧
        p.encodeFrom (cursor + item.length) items = .ok rest ∧ bytes = bs ++ rest := by
  simp only [encodeFrom, bind_ok_iff]
  constructor
  · rintro ⟨bs, hbs, rest, hrest, h⟩
    exact ⟨bs, rest, hbs, hrest, (Except.ok.inj h).symm⟩
  · rintro ⟨bs, rest, hbs, hrest, rfl⟩
    exact ⟨bs, hbs, rest, hrest, rfl⟩

theorem foldlM_place_stream {p : Program} {items : List Item}
    (hu : ∀ item ∈ items, item.isUnit = true) {b : Block} (hcells : b.cells.size = b.cursor)
    (hroom : b.cursor ≤ b.size) {c : Block} :
    items.foldlM p.place b = .ok c ↔
      ∃ bytes, p.encodeFrom b.cursor items = .ok bytes ∧ b.cursor + bytes.length ≤ b.size ∧
        c = ⟨b.cells ++ bytes.toArray, b.size, b.cursor + bytes.length⟩ := by
  induction items generalizing b with
  | nil =>
    constructor
    · intro h
      rw [← Except.ok.inj h]
      exact ⟨[], rfl, hroom, by simp⟩
    · rintro ⟨bytes, h, -, rfl⟩
      rw [← Except.ok.inj h]
      simp [pure, Except.pure]
  | cons item items ih =>
    rw [List.forall_mem_cons] at hu
    simp only [List.foldlM_cons, place_unit hu.1, bind_ok_iff, encodeFrom_cons_ok_iff]
    have hemit (bs : List UInt8) (d : Block) : b.emit bs = .ok d ↔
        b.cursor + bs.length ≤ b.size ∧
          d = ⟨b.cells ++ bs.toArray, b.size, b.cursor + bs.length⟩ := by
      rw [Block.emit_ok_iff, ← hcells, overwrite_end]
    constructor
    · rintro ⟨d, ⟨bs, hbs, hd⟩, hc⟩
      obtain ⟨hfit, rfl⟩ := (hemit bs d).1 hd
      obtain ⟨rest, hrest, hfit', rfl⟩ := (ih hu.2 (by simp [hcells]) hfit).1 hc
      refine ⟨bs ++ rest, ⟨bs, rest, hbs, ?_, rfl⟩, ?_, ?_⟩
      · rw [← length_encode hbs]
        exact hrest
      · simpa [Nat.add_assoc] using hfit'
      · simp [Nat.add_assoc]
    · rintro ⟨_, ⟨bs, rest, hbs, hrest, rfl⟩, hfit, rfl⟩
      rw [List.length_append, ← Nat.add_assoc] at hfit
      rw [← length_encode hbs] at hrest
      have hbs' : b.cursor + bs.length ≤ b.size := by omega
      refine ⟨_, ⟨bs, hbs, (hemit bs _).2 ⟨hbs', rfl⟩⟩, ?_⟩
      refine (ih hu.2 (by simp [hcells]) hbs').2 ⟨rest, hrest, hfit, ?_⟩
      simp [Nat.add_assoc]

theorem layout_stream {p : Program} (hu : ∀ item ∈ p.items.toList, item.isUnit = true)
    {c : Block} :
    p.layout = .ok c ↔ ∃ bytes, p.encodeFrom 0 p.items.toList = .ok bytes ∧
      bytes.length ≤ p.size ∧ c = ⟨bytes.toArray, p.size, bytes.length⟩ := by
  rw [layout_eq, foldlM_place_stream hu rfl (Nat.zero_le _)]
  simp [Block.cleared]

theorem fitted_self (cells : Array UInt8) : fitted cells.size cells = cells := by
  simp [fitted]

/-- A clamped build is the encodings in a row, and fails when they do not fit. -/
theorem build_stream {p : Program} (hu : ∀ item ∈ p.items.toList, item.isUnit = true)
    {bytes : Array UInt8} :
    p.build true = .ok bytes ↔
      p.encodeFrom 0 p.items.toList = .ok bytes.toList ∧ bytes.size ≤ p.size := by
  rw [build_ok_iff]
  simp only [layout_stream hu, if_true]
  constructor
  · rintro ⟨c, ⟨bs, hbs, hfit, rfl⟩, rfl⟩
    rw [Nat.min_eq_left hfit, ← List.size_toArray, fitted_self]
    exact ⟨hbs, hfit⟩
  · rintro ⟨hbs, hfit⟩
    refine ⟨_, ⟨bytes.toList, hbs, hfit, rfl⟩, ?_⟩
    rw [Array.toArray_toList, Array.length_toList, Nat.min_eq_left hfit, fitted_self]

end Program

end M6502
