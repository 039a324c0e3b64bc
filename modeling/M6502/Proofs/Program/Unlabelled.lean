import M6502.Proofs.Disassembly.Decoding
import M6502.Proofs.Program.Stream

/-!
# Items without labels

An item that refers to no label has the same bytes in every program and at
every position, so what is built of such items depends on nothing but their
bytes and the capacity.
-/

set_option autoImplicit false

namespace M6502

def Item.literalBytes : Item → List UInt8
  | .instruction i => i.literalBytes
  | .data (.bytes bs) => bs
  | .data (.label _) | .data (.displacement _) | .seek _ => []

theorem Instruction.unlabelled_of_literal {i : Instruction} (h : i.IsLiteral) :
    (Item.instruction i).reference? = none := by
  obtain ⟨w, -, ho⟩ := h
  obtain ⟨e, operand⟩ := i
  have ho : operand = e.literalOperand w := ho
  by_cases hs : e.size = 1
  · rw [ho, Encoding.literalOperand_none hs]
    rfl
  · rw [ho, Encoding.literalOperand_value hs]
    rfl

namespace Program

theorem encode_literal (p : Program) (cursor : Nat) {item : Item} (h : item.reference? = none) :
    p.encode cursor item = .ok item.literalBytes := by
  cases item with
  | instruction i =>
    obtain ⟨e, operand⟩ := i
    cases operand with
    | none => rfl
    | value v => rfl
    | label name => contradiction
    | displacement name => contradiction
  | data d =>
    cases d with
    | bytes bs => rfl
    | label name => contradiction
    | displacement name => contradiction
  | seek target => rfl

theorem encodeFrom_literal (p : Program) (cursor : Nat) {items : List Item}
    (h : ∀ item ∈ items, item.reference? = none) :
    p.encodeFrom cursor items = .ok (items.flatMap Item.literalBytes) := by
  induction items generalizing cursor with
  | nil => rfl
  | cons item items ih =>
    rw [List.forall_mem_cons] at h
    rw [encodeFrom_cons_ok_iff]
    refine ⟨_, _, p.encode_literal cursor h.1, ih (cursor + item.length) h.2, ?_⟩
    rw [List.flatMap_cons]

/-- A program of items without labels and without seeks builds to their bytes in a row. -/
theorem build_literal {p : Program} (hu : ∀ item ∈ p.items.toList, item.isUnit = true)
    (hr : ∀ item ∈ p.items.toList, item.reference? = none) {clamp : Bool} {bytes : Array UInt8} :
    p.build clamp = .ok bytes ↔
      (p.items.toList.flatMap Item.literalBytes).length ≤ p.size ∧
        bytes = fitted
          (if clamp then (p.items.toList.flatMap Item.literalBytes).length else p.size)
          (p.items.toList.flatMap Item.literalBytes).toArray := by
  rw [build_ok_iff]
  simp only [layout_stream hu, encodeFrom_literal p 0 hr, Except.ok.injEq]
  constructor
  · rintro ⟨b, ⟨bs, rfl, hfit, rfl⟩, rfl⟩
    refine ⟨hfit, ?_⟩
    rw [Nat.min_eq_left hfit]
  · rintro ⟨hfit, rfl⟩
    refine ⟨_, ⟨_, rfl, hfit, rfl⟩, ?_⟩
    rw [Nat.min_eq_left hfit]

end Program

end M6502
