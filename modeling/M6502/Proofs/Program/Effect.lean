import M6502.Program.Call

/-!
# What a call can do to a program

Every call that succeeds appends one item, or sets one of the fields that are
not the items and not the position. Whatever a run of calls preserves is read
off these five cases and never off the operations themselves.
-/

set_option autoImplicit false

namespace M6502

theorem bind_ok_iff {ε α β : Type} {x : Except ε α} {f : α → Except ε β} {b : β} :
    x >>= f = .ok b ↔ ∃ a, x = .ok a ∧ f a = .ok b := by
  cases x <;> simp [bind, Except.bind]

theorem bind_error_iff {ε α β : Type} {x : Except ε α} {f : α → Except ε β} {e : ε} :
    x >>= f = .error e ↔ x = .error e ∨ ∃ a, x = .ok a ∧ f a = .error e := by
  cases x <;> simp [bind, Except.bind]

theorem exists_bind_pure_ok_iff {ε α β : Type} {x : Except ε α} {f : α → β} :
    (∃ b, (x >>= fun a => pure (f a)) = .ok b) ↔ ∃ a, x = .ok a := by
  cases x with
  | error e => simp [bind, Except.bind]
  | ok a => exact iff_of_true ⟨f a, rfl⟩ ⟨a, rfl⟩

namespace Program

inductive Effect (p : Program) : Program → Prop
  | append (item : Item) : Effect p (p.append item)
  | label (name : String) (h : p.address? name = none) :
      Effect p { p with labels := p.labels.insert name p.here }
  | origin (addr : UInt16) : Effect p (p.setOrigin addr)
  | mint : Effect p p.mint
  | zeroPage (names : List String) : Effect p { p with zeroPage := p.zeroPage ++ names }

theorem instruct_ok {p q : Program} {e : Encoding} {operand : Operand}
    (h : p.instruct e operand = .ok q) : q = p.append (.instruction ⟨e, operand⟩) := by
  unfold instruct at h
  split at h
  · split at h
    · contradiction
    · exact (Except.ok.inj h).symm
  · exact (Except.ok.inj h).symm

theorem add_ok {p q : Program} {name : String} {operand : Operand}
    (h : p.add name operand = .ok q) :
    ∃ e, Encoding.ofName? name = some e ∧ q = p.append (.instruction ⟨e, operand⟩) := by
  unfold add at h
  split at h
  · contradiction
  · rename_i e he
    exact ⟨e, he, instruct_ok h⟩

theorem put_ok {p q : Program} {value : Int} (h : p.put value = .ok q) :
    q = p.putBytes [UInt8.ofNat value.toNat] := by
  unfold put at h
  split at h
  · exact (Except.ok.inj h).symm
  · contradiction

theorem putText_ok {p q : Program} {text : String} (h : p.putText text = .ok q) :
    ∃ bs, q = p.putBytes bs := by
  obtain ⟨bs, -, hq⟩ := bind_ok_iff.1 h
  exact ⟨bs, (Except.ok.inj hq).symm⟩

theorem includeFile_ok {p q : Program} {contents : Option (List UInt8)}
    (h : p.includeFile contents = .ok q) : ∃ bs, q = p.putBytes bs := by
  cases contents with
  | none => contradiction
  | some bs => exact ⟨bs, (Except.ok.inj h).symm⟩

theorem setLabel_ok {p q : Program} {name : String} (h : p.setLabel name = .ok q) :
    p.address? name = none ∧ q = { p with labels := p.labels.insert name p.here } := by
  unfold setLabel at h
  split at h
  · contradiction
  · rename_i hn
    exact ⟨hn, (Except.ok.inj h).symm⟩

theorem moveTo_ok {p q : Program} {addr : UInt16} (h : p.moveTo addr = .ok q) :
    q = p.append (.seek (addr.toNat - p.origin.toNat)) := by
  unfold moveTo at h
  split at h
  · exact (Except.ok.inj h).symm
  · contradiction

theorem setVariable_ok {p q : Program} {name : String} (h : p.setVariable name = .ok q) :
    ∃ names, q = { p with zeroPage := p.zeroPage ++ names } := by
  unfold setVariable at h
  split at h
  · exact ⟨[], by rw [← Except.ok.inj h, List.append_nil]⟩
  · split at h
    · exact ⟨[name], (Except.ok.inj h).symm⟩
    · contradiction

theorem effect_of_apply {p q : Program} {c : Call} (h : c.apply p = .ok q) : p.Effect q := by
  cases c with
  | add name operand =>
    obtain ⟨e, -, rfl⟩ := add_ok h
    exact .append _
  | instruct e operand => rw [instruct_ok h]; exact .append _
  | put value => rw [put_ok h]; exact .append _
  | putWord value => rw [← Except.ok.inj h]; exact .append _
  | putBytes bs => rw [← Except.ok.inj h]; exact .append _
  | putText text =>
    obtain ⟨bs, rfl⟩ := putText_ok h
    exact .append _
  | putLabel name => rw [← Except.ok.inj h]; exact .append _
  | putDisplacement name => rw [← Except.ok.inj h]; exact .append _
  | includeFile contents =>
    obtain ⟨bs, rfl⟩ := includeFile_ok h
    exact .append _
  | setLabel name =>
    obtain ⟨hn, rfl⟩ := setLabel_ok h
    exact .label name hn
  | setOrigin addr => rw [← Except.ok.inj h]; exact .origin addr
  | moveTo addr => rw [moveTo_ok h]; exact .append _
  | mint => rw [← Except.ok.inj h]; exact .mint
  | setVariable name =>
    obtain ⟨names, rfl⟩ := setVariable_ok h
    exact .zeroPage names

structure Frame (p : Program) (c : Call) (q : Program) : Prop where
  labels_eq : (∀ name, c ≠ .setLabel name) → q.labels = p.labels
  origin_eq : (∀ addr, c ≠ .setOrigin addr) → q.origin = p.origin
  zeroPage_eq : (∀ name, c ≠ .setVariable name) → q.zeroPage = p.zeroPage

theorem frame_append (p : Program) (c : Call) (item : Item) : p.Frame c (p.append item) :=
  ⟨fun _ => rfl, fun _ => rfl, fun _ => rfl⟩

theorem frame_of_apply {p q : Program} {c : Call} (h : c.apply p = .ok q) : p.Frame c q := by
  cases c with
  | add name operand =>
    obtain ⟨e, -, rfl⟩ := add_ok h
    exact frame_append _ _ _
  | instruct e operand => rw [instruct_ok h]; exact frame_append _ _ _
  | put value => rw [put_ok h]; exact frame_append _ _ _
  | putWord value => rw [← Except.ok.inj h]; exact frame_append _ _ _
  | putBytes bs => rw [← Except.ok.inj h]; exact frame_append _ _ _
  | putText text =>
    obtain ⟨bs, rfl⟩ := putText_ok h
    exact frame_append _ _ _
  | putLabel name => rw [← Except.ok.inj h]; exact frame_append _ _ _
  | putDisplacement name => rw [← Except.ok.inj h]; exact frame_append _ _ _
  | includeFile contents =>
    obtain ⟨bs, rfl⟩ := includeFile_ok h
    exact frame_append _ _ _
  | setLabel name =>
    obtain ⟨-, rfl⟩ := setLabel_ok h
    exact ⟨fun hn => absurd rfl (hn name), fun _ => rfl, fun _ => rfl⟩
  | setOrigin addr =>
    rw [← Except.ok.inj h]
    exact ⟨fun _ => rfl, fun hn => absurd rfl (hn addr), fun _ => rfl⟩
  | moveTo addr => rw [moveTo_ok h]; exact frame_append _ _ _
  | mint => rw [← Except.ok.inj h]; exact ⟨fun _ => rfl, fun _ => rfl, fun _ => rfl⟩
  | setVariable name =>
    obtain ⟨names, rfl⟩ := setVariable_ok h
    exact ⟨fun _ => rfl, fun _ => rfl, fun hn => absurd rfl (hn name)⟩

/-- A call that fails leaves the program as it was; another has an effect. -/
theorem attempt_cases (p : Program) (c : Call) : p.attempt c = p ∨ p.Effect (p.attempt c) := by
  unfold attempt
  split
  · rename_i q h
    exact .inr (effect_of_apply h)
  · exact .inl rfl

theorem Effect.size_eq {p q : Program} (h : p.Effect q) : q.size = p.size := by
  cases h <;> rfl

@[simp]
theorem size_attempt (p : Program) (c : Call) : (p.attempt c).size = p.size := by
  rcases p.attempt_cases c with h | h
  · rw [h]
  · exact h.size_eq

@[simp]
theorem size_attemptAll (p : Program) (calls : List Call) : (p.attemptAll calls).size = p.size := by
  induction calls generalizing p with
  | nil => rfl
  | cons c calls ih => exact (ih (p.attempt c)).trans (p.size_attempt c)

/-- The items grow at most by one, and the position moves over what they grew by. -/
theorem Effect.items_eq {p q : Program} (h : p.Effect q) :
    (q.items = p.items ∧ q.position = p.position) ∨
      ∃ item, q.items = p.items.push item ∧ q.position = item.advance p.position := by
  cases h with
  | append item => exact .inr ⟨item, rfl, rfl⟩
  | label name h => exact .inl ⟨rfl, rfl⟩
  | origin addr => exact .inl ⟨rfl, rfl⟩
  | mint => exact .inl ⟨rfl, rfl⟩
  | zeroPage names => exact .inl ⟨rfl, rfl⟩

end Program

end M6502
