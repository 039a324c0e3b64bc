import M6502.Proofs.Program.Labels

/-!
# Programs at two origins

The same calls make the same program at every origin, with all labels moved
along. They answer the same too, since no call but those that place the
program looks at where it is.
-/

set_option autoImplicit false

namespace M6502

inductive Corresponds {ε α β : Type} (R : α → β → Prop) : Except ε α → Except ε β → Prop
  | ok {a : α} {b : β} (h : R a b) : Corresponds R (.ok a) (.ok b)
  | error (e : ε) : Corresponds R (.error e) (.error e)

namespace Corresponds

variable {ε α β γ δ : Type} {R : α → β → Prop} {S : γ → δ → Prop}

theorem bind {x : Except ε α} {y : Except ε β} {f : α → Except ε γ} {g : β → Except ε δ}
    (h : Corresponds R x y) (hf : ∀ a b, R a b → Corresponds S (f a) (g b)) :
    Corresponds S (x >>= f) (y >>= g) := by
  cases h with
  | ok h => exact hf _ _ h
  | error e => exact .error e

theorem of_eq {x y : Except ε α} {R : α → α → Prop} (h : y = x) (hR : ∀ a, R a a) :
    Corresponds R x y := by
  rw [h]
  cases x with
  | ok a => exact .ok (hR a)
  | error e => exact .error e

theorem map {x : Except ε α} {y : Except ε β} {f : α → γ} {g : β → δ} (h : Corresponds R x y)
    (hf : ∀ a b, R a b → S (f a) (g b)) : Corresponds S (x.map f) (y.map g) := by
  cases h with
  | ok h => exact .ok (hf _ _ h)
  | error e => exact .error e

theorem answer {x : Except ε α} {y : Except ε β} {a : α} (h : Corresponds R x y) (hx : x = .ok a) :
    ∃ b, y = .ok b ∧ R a b := by
  cases h with
  | ok h =>
    cases hx
    exact ⟨_, rfl, h⟩
  | error e => contradiction

end Corresponds

def Call.isRelocatable : Call → Bool
  | .setOrigin _ | .moveTo _ => false
  | _ => true

theorem Call.setsOrigin_of_relocatable {c : Call} (h : c.isRelocatable = true) :
    c.setsOrigin = false := by
  cases c <;> first | contradiction | rfl

namespace Program

def shift (p q : Program) : UInt16 :=
  q.origin - p.origin

structure Rebased (p q : Program) : Prop where
  size_eq : q.size = p.size
  position_eq : q.position = p.position
  items_eq : q.items = p.items
  minted_eq : q.minted = p.minted
  zeroPage_eq : q.zeroPage = p.zeroPage
  address?_eq : ∀ name, q.address? name = (p.address? name).map (· + p.shift q)

namespace Rebased

variable {p q : Program}

theorem setOrigin (size : Nat) (o₁ o₂ : UInt16) :
    Rebased ((empty size).setOrigin o₁) ((empty size).setOrigin o₂) where
  size_eq := rfl
  position_eq := rfl
  items_eq := rfl
  minted_eq := rfl
  zeroPage_eq := rfl
  address?_eq name := by
    have hnone (o : UInt16) : ((empty size).setOrigin o).address? name = none :=
      address?_empty size name
    rw [hnone, hnone]
    rfl

theorem append (h : Rebased p q) (item : Item) : Rebased (p.append item) (q.append item) where
  size_eq := h.size_eq
  position_eq := congrArg item.advance h.position_eq
  items_eq := congrArg (·.push item) h.items_eq
  minted_eq := h.minted_eq
  zeroPage_eq := h.zeroPage_eq
  address?_eq := h.address?_eq

theorem here_eq (h : Rebased p q) : q.here = p.here + p.shift q := by
  rw [here, here, shift, h.position_eq, UInt16.ofNat_add, UInt16.ofNat_add, UInt16.ofNat_toNat,
    UInt16.ofNat_toNat]
  grind

theorem instruct (h : Rebased p q) (e : Encoding) (operand : Operand) :
    Corresponds Rebased (p.instruct e operand) (q.instruct e operand) := by
  unfold Program.instruct
  split
  · split
    · exact .error _
    · exact .ok (h.append _)
  · exact .ok (h.append _)

theorem add (h : Rebased p q) (name : String) (operand : Operand) :
    Corresponds Rebased (p.add name operand) (q.add name operand) := by
  unfold Program.add
  split
  · exact .error _
  · exact h.instruct _ operand

theorem put (h : Rebased p q) (value : Int) : Corresponds Rebased (p.put value) (q.put value) := by
  unfold Program.put
  split
  · exact .ok (h.append _)
  · exact .error _

theorem putText (h : Rebased p q) (text : String) :
    Corresponds Rebased (p.putText text) (q.putText text) := by
  unfold Program.putText
  cases text.toList.mapM characterByte with
  | ok bs => exact .ok (h.append _)
  | error e => exact .error e

theorem setLabel (h : Rebased p q) (name : String) :
    Corresponds Rebased (p.setLabel name) (q.setLabel name) := by
  unfold Program.setLabel
  rw [h.address?_eq]
  cases hp : p.address? name with
  | some addr => exact .error _
  | none =>
    refine .ok ⟨h.size_eq, h.position_eq, h.items_eq, h.minted_eq, h.zeroPage_eq, fun other => ?_⟩
    have hother := h.address?_eq other
    simp only [address?, shift, Std.TreeMap.getElem?_insert, h.here_eq] at hother ⊢
    split
    · rfl
    · exact hother

theorem setVariable (h : Rebased p q) (name : String) :
    Corresponds Rebased (p.setVariable name) (q.setVariable name) := by
  unfold Program.setVariable
  rw [h.zeroPage_eq]
  split
  · exact .ok h
  · split
    · exact .ok ⟨h.size_eq, h.position_eq, h.items_eq, h.minted_eq, rfl, h.address?_eq⟩
    · exact .error _

theorem apply (h : Rebased p q) {c : Call} (hc : c.isRelocatable = true) :
    Corresponds Rebased (c.apply p) (c.apply q) := by
  cases c with
  | add name operand => exact h.add name operand
  | instruct e operand => exact h.instruct e operand
  | put value => exact h.put value
  | putWord value => exact .ok (h.append _)
  | putBytes bs => exact .ok (h.append _)
  | putText text => exact h.putText text
  | putLabel name => exact .ok (h.append _)
  | putDisplacement name => exact .ok (h.append _)
  | includeFile contents =>
    cases contents with
    | none => exact .error _
    | some bs => exact .ok (h.append _)
  | setLabel name => exact h.setLabel name
  | setOrigin addr => contradiction
  | moveTo addr => contradiction
  | mint =>
    exact .ok ⟨h.size_eq, h.position_eq, h.items_eq, congrArg (· + 1) h.minted_eq, h.zeroPage_eq,
      h.address?_eq⟩
  | setVariable name => exact h.setVariable name

theorem attempt (h : Rebased p q) {c : Call} (hc : c.isRelocatable = true) :
    Rebased (p.attempt c) (q.attempt c) := by
  have happly := h.apply hc
  unfold Program.attempt
  generalize c.apply p = r at happly ⊢
  generalize c.apply q = s at happly ⊢
  cases happly with
  | ok hnext => exact hnext
  | error e => exact h

theorem attemptAll {calls : List Call} (hcalls : ∀ c ∈ calls, c.isRelocatable = true)
    (h : Rebased p q) : Rebased (p.attemptAll calls) (q.attemptAll calls) := by
  induction calls generalizing p q with
  | nil => exact h
  | cons c calls ih =>
    rw [List.forall_mem_cons] at hcalls
    exact ih hcalls.2 (h.attempt hcalls.1)

theorem marks_eq {calls : List Call} (hcalls : ∀ c ∈ calls, c.isRelocatable = true)
    (h : Rebased p q) : q.marks calls = p.marks calls := by
  induction calls generalizing p q with
  | nil => rfl
  | cons c calls ih =>
    rw [List.forall_mem_cons] at hcalls
    have hmarked : q.marked c = p.marked c := by
      cases c with
      | setLabel name => simp only [marked, h.address?_eq, Option.map_eq_none_iff, h.position_eq]
      | _ => rfl
    rw [marks, marks, hmarked, ih hcalls.2 (h.attempt hcalls.1)]

end Rebased

end Program

end M6502
