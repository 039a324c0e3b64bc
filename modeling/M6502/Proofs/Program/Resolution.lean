import M6502.Program.Layout
import M6502.Proofs.Program.Effect

/-!
# What an item needs from the labels

The bytes of an item depend on the program through the labels it refers to
and, for a displacement, on where the item stands. An item resolves exactly
when its label is defined and, where it states a distance, lies near enough;
its bytes are then as many as its length says.
-/

set_option autoImplicit false

namespace M6502

namespace Item

def reference? : Item → Option String
  | .instruction i =>
    match i.operand with
    | .label name | .displacement name => some name
    | .none | .value _ => none
  | .data (.label name) | .data (.displacement name) => some name
  | .data (.bytes _) | .seek _ => none

def displaced? : Item → Option String
  | .instruction i =>
    match i.operand with
    | .displacement name => some name
    | .none | .value _ | .label _ => none
  | .data (.displacement name) => some name
  | .data (.bytes _) | .data (.label _) | .seek _ => none

end Item

namespace Program

def Near (p : Program) (cursor : Nat) (addr : UInt16) : Prop :=
  -128 ≤ p.distance addr cursor ∧ p.distance addr cursor ≤ 127

theorem resolve_ok_iff {p : Program} {name : String} {addr : UInt16} :
    p.resolve name = .ok addr ↔ p.address? name = some addr := by
  unfold resolve
  split <;> simp_all

theorem displacement_ok_iff {p : Program} {name : String} {cursor : Nat} {d : UInt8} :
    p.displacement name cursor = .ok d ↔
      ∃ addr, p.address? name = some addr ∧ p.Near cursor addr ∧
        d = UInt8.ofInt (p.distance addr cursor) := by
  unfold displacement
  rw [bind_ok_iff]
  simp only [resolve_ok_iff, Near]
  refine exists_congr fun addr => and_congr_right fun _ => ?_
  split
  · rename_i hd
    simp only [hd, and_self, true_and, Except.ok.injEq]
    exact eq_comm
  · rename_i hd
    simp [hd]

structure Resolves (p : Program) (cursor : Nat) (item : Item) : Prop where
  defined : ∀ name, item.reference? = some name → ∃ addr, p.address? name = some addr
  near : ∀ name addr, item.displaced? = some name → p.address? name = some addr →
    p.Near cursor addr

theorem resolves_of_reference_none {p : Program} {cursor : Nat} {item : Item}
    (h : item.reference? = none) (hd : item.displaced? = none) : p.Resolves cursor item :=
  ⟨by simp [h], by simp [hd]⟩

theorem resolves_label {p : Program} {cursor : Nat} {item : Item} (name : String)
    (h : item.reference? = some name) (hd : item.displaced? = none) :
    p.Resolves cursor item ↔ ∃ addr, p.resolve name = .ok addr := by
  simp only [resolve_ok_iff]
  exact ⟨fun r => r.defined name h, fun r => ⟨by simpa [h] using r, by simp [hd]⟩⟩

theorem resolves_displacement {p : Program} {cursor : Nat} {item : Item} (name : String)
    (h : item.reference? = some name) (hd : item.displaced? = some name) :
    p.Resolves cursor item ↔ ∃ d, p.displacement name cursor = .ok d := by
  simp only [displacement_ok_iff]
  constructor
  · intro r
    obtain ⟨addr, ha⟩ := r.defined name h
    exact ⟨_, addr, ha, r.near name addr hd ha, rfl⟩
  · rintro ⟨d, addr, ha, hn, -⟩
    constructor
    · intro other ho
      cases h.symm.trans ho
      exact ⟨addr, ha⟩
    · intro other target ho ht
      cases hd.symm.trans ho
      cases ha.symm.trans ht
      exact hn

/-- An item has bytes exactly when its labels resolve. -/
theorem encode_ok_iff {p : Program} {cursor : Nat} {item : Item} :
    (∃ bs, p.encode cursor item = .ok bs) ↔ p.Resolves cursor item := by
  cases item with
  | instruction i =>
    obtain ⟨e, operand⟩ := i
    rw [encode, exists_bind_pure_ok_iff]
    cases operand with
    | none => exact iff_of_true ⟨0, rfl⟩ (resolves_of_reference_none rfl rfl)
    | value v => exact iff_of_true ⟨v, rfl⟩ (resolves_of_reference_none rfl rfl)
    | label name => exact (resolves_label name rfl rfl).symm
    | displacement name =>
      rw [resolves_displacement name rfl rfl]
      exact exists_bind_pure_ok_iff
  | data d =>
    cases d with
    | bytes bs => exact iff_of_true ⟨bs, rfl⟩ (resolves_of_reference_none rfl rfl)
    | label name =>
      rw [resolves_label name rfl rfl]
      exact exists_bind_pure_ok_iff
    | displacement name =>
      rw [resolves_displacement name rfl rfl]
      exact exists_bind_pure_ok_iff
  | seek target => exact iff_of_true ⟨[], rfl⟩ (resolves_of_reference_none rfl rfl)

theorem length_encode {p : Program} {cursor : Nat} {item : Item} {bs : List UInt8}
    (h : p.encode cursor item = .ok bs) : bs.length = item.length := by
  cases item with
  | instruction i =>
    obtain ⟨w, -, hw⟩ := bind_ok_iff.1 h
    rw [← Except.ok.inj hw, List.length_take]
    have hs := i.encoding.mode.size_le
    exact Nat.min_eq_left hs
  | data d =>
    cases d with
    | bytes bs => rw [← Except.ok.inj h]; rfl
    | label name =>
      obtain ⟨w, -, hw⟩ := bind_ok_iff.1 h
      rw [← Except.ok.inj hw]; rfl
    | displacement name =>
      obtain ⟨d, -, hd⟩ := bind_ok_iff.1 h
      rw [← Except.ok.inj hd]; rfl
  | seek target => rw [← Except.ok.inj h]; rfl

end Program

end M6502
