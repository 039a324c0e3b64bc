import M6502.Proofs.Program.TwoPass

/-!
# Why a layout fails

A layout fails at an item: its bytes have no room, or its label is not
defined, or its label is too far away. The error names that item's position
or label.
-/

set_option autoImplicit false

namespace M6502.Program

theorem place_error {p : Program} {b : Block} {item : Item} {e : ProgramError}
    (h : p.place b item = .error e) (hb : b.size = p.size) :
    item.isUnit = true ∧
      (p.encode b.cursor item = .error e ∨ e = .overflow b.cursor p.size) := by
  cases hu : item.isUnit with
  | false => cases item <;> contradiction
  | true =>
    refine ⟨rfl, ?_⟩
    rw [place_unit hu, bind_error_iff] at h
    rcases h with h | ⟨bs, -, hemit⟩
    · exact .inl h
    · simp only [Block.emit] at hemit
      split at hemit
      · contradiction
      · rw [← hb]
        exact .inr (Except.error.inj hemit).symm

theorem foldlM_place_error {p : Program} {b : Block} {items : List Item} {e : ProgramError}
    (h : items.foldlM p.place b = .error e) (hb : b.size = p.size) :
    ∃ u ∈ Placement.replay b.cursor items,
      p.encode u.position u.item = .error e ∨ e = .overflow u.position p.size := by
  induction items generalizing b with
  | nil => contradiction
  | cons item items ih =>
    rw [List.foldlM_cons, bind_error_iff] at h
    rcases h with h | ⟨c, hc, h⟩
    · obtain ⟨hu, herror⟩ := place_error h hb
      refine ⟨⟨b.cursor, item⟩, ?_, herror⟩
      rw [Placement.replay, if_pos hu]
      exact List.mem_cons_self
    · obtain ⟨hs, hp⟩ := place_frame hc
      obtain ⟨u, hu, herror⟩ := ih h (hs.trans hb)
      rw [hp] at hu
      exact ⟨u, List.mem_append_right _ hu, herror⟩

theorem layout_error {p : Program} {clamp : Bool} {e : ProgramError}
    (h : p.build clamp = .error e) : p.layout = .error e := by
  rw [build, bind_error_iff] at h
  rcases h with h | ⟨b, -, h⟩
  · exact h
  · contradiction

/-- A build fails at an item: it has no bytes, or they have no room. -/
theorem build_error {p : Program} {clamp : Bool} {e : ProgramError}
    (h : p.build clamp = .error e) :
    ∃ u ∈ Placement.replay 0 p.items.toList,
      p.encode u.position u.item = .error e ∨ e = .overflow u.position p.size := by
  have hlayout := layout_error h
  rw [layout_eq] at hlayout
  exact foldlM_place_error hlayout rfl

theorem resolve_error {p : Program} {name : String} {e : ProgramError}
    (h : p.resolve name = .error e) : e = .undefinedLabel name := by
  unfold resolve at h
  split at h
  · contradiction
  · exact (Except.error.inj h).symm

theorem displacement_error {p : Program} {name : String} {cursor : Nat} {e : ProgramError}
    (h : p.displacement name cursor = .error e) :
    e = .undefinedLabel name ∨ ∃ addr, p.address? name = some addr ∧
      ¬ p.Near cursor addr ∧ e = .branchOutOfRange name (p.distance addr cursor) := by
  rw [displacement, bind_error_iff] at h
  rcases h with h | ⟨addr, haddr, h⟩
  · exact .inl (resolve_error h)
  · simp only at h
    split at h
    · contradiction
    · rename_i hfar
      exact .inr ⟨addr, resolve_ok_iff.1 haddr, hfar, (Except.error.inj h).symm⟩

/-- An item without bytes refers to a label that is not defined, or is too far away from one. -/
theorem encode_error {p : Program} {cursor : Nat} {item : Item} {e : ProgramError}
    (h : p.encode cursor item = .error e) :
    (∃ name, item.reference? = some name ∧ e = .undefinedLabel name) ∨
      ∃ name addr, item.displaced? = some name ∧ p.address? name = some addr ∧
        ¬ p.Near cursor addr ∧ e = .branchOutOfRange name (p.distance addr cursor) := by
  have hlabel {name : String} (hr : item.reference? = some name)
      (he : p.resolve name = .error e) :
      ∃ name, item.reference? = some name ∧ e = .undefinedLabel name :=
    ⟨name, hr, resolve_error he⟩
  have hdisplaced {name : String} (hr : item.reference? = some name)
      (hd : item.displaced? = some name) (he : p.displacement name cursor = .error e) :
      (∃ name, item.reference? = some name ∧ e = .undefinedLabel name) ∨
        ∃ name addr, item.displaced? = some name ∧ p.address? name = some addr ∧
          ¬ p.Near cursor addr ∧ e = .branchOutOfRange name (p.distance addr cursor) := by
    rcases displacement_error he with he | ⟨addr, haddr, hfar, he⟩
    · exact .inl ⟨name, hr, he⟩
    · exact .inr ⟨name, addr, hd, haddr, hfar, he⟩
  cases item with
  | instruction i =>
    obtain ⟨encoding, operand⟩ := i
    rw [encode, bind_error_iff] at h
    rcases h with h | ⟨w, -, h⟩
    · cases operand with
      | none | value => contradiction
      | label name => exact .inl (hlabel rfl h)
      | displacement name =>
        rw [operandWord, bind_error_iff] at h
        rcases h with h | ⟨d, -, h⟩
        · exact hdisplaced rfl rfl h
        · contradiction
    · contradiction
  | data d =>
    cases d with
    | bytes bs => contradiction
    | label name =>
      rw [encode, bind_error_iff] at h
      rcases h with h | ⟨w, -, h⟩
      · exact .inl (hlabel rfl h)
      · contradiction
    | displacement name =>
      rw [encode, bind_error_iff] at h
      rcases h with h | ⟨d, -, h⟩
      · exact hdisplaced rfl rfl h
      · contradiction
  | seek target => contradiction

/-- A build that reports a label as too far away has an item that states a distance to it. -/
theorem build_branchOutOfRange {p : Program} {clamp : Bool} {name : String} {d : Int}
    (h : p.build clamp = .error (.branchOutOfRange name d)) :
    ∃ u ∈ Placement.replay 0 p.items.toList, ∃ addr, u.item.displaced? = some name ∧
      p.address? name = some addr ∧ d = p.distance addr u.position ∧ ¬ p.Near u.position addr := by
  obtain ⟨u, hu, he | he⟩ := build_error h
  · rcases encode_error he with ⟨other, -, he⟩ | ⟨other, addr, hd, haddr, hfar, he⟩
    · contradiction
    · cases he
      exact ⟨u, hu, addr, hd, haddr, rfl, hfar⟩
  · contradiction

end M6502.Program
