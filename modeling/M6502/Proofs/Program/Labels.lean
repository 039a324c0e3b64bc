import M6502.Proofs.Program.TwoPass

/-!
# Where labels stand

Calls define labels at the positions that a caller can see. A label keeps
the address that it had when it was defined, so when the origin is settled
before the first label, every label has the address of its place behind the
origin.
-/

set_option autoImplicit false

namespace M6502

namespace Call

def setsOrigin : Call → Bool
  | .setOrigin _ => true
  | _ => false

def settlesOrigin : Call → Bool
  | .setOrigin _ | .setLabel _ => true
  | _ => false

def OriginFirst (calls : List Call) : Prop :=
  calls.Pairwise fun c d => c.settlesOrigin = true → d.setsOrigin = false

instance (calls : List Call) : Decidable (OriginFirst calls) :=
  inferInstanceAs (Decidable (List.Pairwise _ _))

end Call

namespace Program

def marked (p : Program) : Call → List (String × Nat)
  | .setLabel name => if p.address? name = none then [(name, p.position)] else []
  | _ => []

def marks (p : Program) : List Call → List (String × Nat)
  | [] => []
  | c :: calls => p.marked c ++ (p.attempt c).marks calls

theorem attempt_of_ok {p q : Program} {c : Call} (h : c.apply p = .ok q) : p.attempt c = q := by
  rw [attempt, h]

theorem origin_attempt {c : Call} (hc : c.setsOrigin = false) (p : Program) :
    (p.attempt c).origin = p.origin := by
  unfold attempt
  split
  · rename_i q h
    refine (frame_of_apply h).origin_eq ?_
    rintro addr rfl
    contradiction
  · rfl

theorem labels_attempt {c : Call} (hc : ∀ name, c ≠ .setLabel name) (p : Program) :
    (p.attempt c).labels = p.labels := by
  unfold attempt
  split
  · rename_i q h
    exact (frame_of_apply h).labels_eq hc
  · rfl

theorem origin_attemptAll {calls : List Call} (hc : ∀ c ∈ calls, c.setsOrigin = false)
    (p : Program) : (p.attemptAll calls).origin = p.origin := by
  induction calls generalizing p with
  | nil => rfl
  | cons c calls ih =>
    rw [List.forall_mem_cons] at hc
    exact (ih hc.2 (p.attempt c)).trans (origin_attempt hc.1 p)

/-- What a call to define a label does to the addresses: a new name gets its place, and no other
address changes. -/
theorem address?_attempt_setLabel (p : Program) (name other : String) :
    (p.attempt (.setLabel name)).address? other =
      if p.address? name = none ∧ name = other then some p.here else p.address? other := by
  cases hn : p.address? name with
  | some addr =>
    have hfail : Call.apply p (.setLabel name) = .error (.labelRedefinition name) := by
      simp only [Call.apply, setLabel, hn]
    simp [attempt, hfail]
  | none =>
    have hok : Call.apply p (.setLabel name) =
        .ok { p with labels := p.labels.insert name p.here } := by
      simp only [Call.apply, setLabel, hn]
    rw [attempt_of_ok hok, address?_setLabel hok]
    simp

theorem address?_attempt (p : Program) (c : Call) {name : String} {addr : UInt16}
    (h : p.address? name = some addr) : (p.attempt c).address? name = some addr := by
  by_cases hc : ∃ other, c = .setLabel other
  · obtain ⟨other, rfl⟩ := hc
    rw [address?_attempt_setLabel, if_neg]
    · exact h
    · rintro ⟨hn, rfl⟩
      rw [hn] at h
      contradiction
  · rw [address?, labels_attempt (not_exists.1 hc)]
    exact h

theorem address?_attemptAll (p : Program) (calls : List Call) {name : String} {addr : UInt16}
    (h : p.address? name = some addr) : (p.attemptAll calls).address? name = some addr := by
  induction calls generalizing p with
  | nil => exact h
  | cons c calls ih => exact ih (p.attempt c) (p.address?_attempt c h)

theorem mem_marked {p : Program} {c : Call} {name : String} {t : Nat} :
    (name, t) ∈ p.marked c ↔ c = .setLabel name ∧ p.address? name = none ∧ t = p.position := by
  cases c with
  | setLabel other =>
    simp only [marked]
    split
    · rename_i hn
      constructor
      · intro h
        cases List.mem_singleton.1 h
        exact ⟨rfl, hn, rfl⟩
      · rintro ⟨h, -, rfl⟩
        cases h
        exact List.mem_singleton.2 rfl
    · rename_i hn
      refine iff_of_false List.not_mem_nil ?_
      rintro ⟨h, hnone, -⟩
      cases h
      exact hn hnone
  | _ => exact iff_of_false List.not_mem_nil fun h => nomatch h.1

/-- Every label that was defined has the address of its place behind the origin. -/
theorem address?_of_marks {p : Program} {calls : List Call} (hc : Call.OriginFirst calls)
    {name : String} {t : Nat} (h : (name, t) ∈ p.marks calls) :
    (p.attemptAll calls).address? name =
      some (UInt16.ofNat ((p.attemptAll calls).origin.toNat + t)) := by
  induction calls generalizing p with
  | nil => exact absurd h List.not_mem_nil
  | cons c calls ih =>
    obtain ⟨hhead, htail⟩ := List.pairwise_cons.1 hc
    rcases List.mem_append.1 h with h | h
    · obtain ⟨rfl, hn, rfl⟩ := mem_marked.1 h
      have hkeep : ((p.attempt (.setLabel name)).attemptAll calls).origin = p.origin :=
        (origin_attemptAll (fun d hd => hhead d hd rfl) _).trans (origin_attempt rfl p)
      show ((p.attempt (.setLabel name)).attemptAll calls).address? name =
        some (UInt16.ofNat (((p.attempt (.setLabel name)).attemptAll calls).origin.toNat + _))
      rw [hkeep]
      refine address?_attemptAll _ _ ?_
      rw [address?_attempt_setLabel, if_pos ⟨hn, rfl⟩]
      rfl
    · exact ih htail h

theorem marks_of_address? {p : Program} {calls : List Call} {name : String} {addr : UInt16}
    (h : (p.attemptAll calls).address? name = some addr) :
    p.address? name = some addr ∨ ∃ t, (name, t) ∈ p.marks calls := by
  induction calls generalizing p with
  | nil => exact .inl h
  | cons c calls ih =>
    rcases ih h with h | ⟨t, ht⟩
    · by_cases hc : ∃ other, c = .setLabel other
      · obtain ⟨other, rfl⟩ := hc
        rw [address?_attempt_setLabel] at h
        split at h
        · rename_i hnew
          obtain ⟨hn, rfl⟩ := hnew
          exact .inr ⟨p.position, List.mem_append_left _ (mem_marked.2 ⟨rfl, hn, rfl⟩)⟩
        · exact .inl h
      · rw [address?, labels_attempt (not_exists.1 hc)] at h
        exact .inl h
    · exact .inr ⟨t, List.mem_append_right _ ht⟩

theorem address?_empty (size : Nat) (name : String) : (empty size).address? name = none :=
  Std.TreeMap.getElem?_emptyc

/-- When no label lies behind the end of the address space, the labels are exactly the marks, and
their addresses are counted from the origin without wrapping around. -/
theorem address?_iff_marks {size : Nat} {calls : List Call} (hc : Call.OriginFirst calls)
    (hlabels : ∀ m ∈ (empty size).marks calls,
      ((empty size).attemptAll calls).origin.toNat + m.2 ≤ 0xFFFF)
    {name : String} {addr : UInt16} :
    ((empty size).attemptAll calls).address? name = some addr ↔
      ∃ t, (name, t) ∈ (empty size).marks calls ∧
        addr.toNat = ((empty size).attemptAll calls).origin.toNat + t := by
  have hnat {t : Nat} (ht : (name, t) ∈ (empty size).marks calls) :
      (UInt16.ofNat (((empty size).attemptAll calls).origin.toNat + t)).toNat =
        ((empty size).attemptAll calls).origin.toNat + t := by
    have hle := hlabels _ ht
    rw [UInt16.toNat_ofNat']
    exact Nat.mod_eq_of_lt (Nat.lt_succ_of_le hle)
  constructor
  · intro h
    rcases marks_of_address? h with hbefore | ⟨t, ht⟩
    · rw [address?_empty] at hbefore
      contradiction
    · have haddr := address?_of_marks hc ht
      rw [h] at haddr
      refine ⟨t, ht, ?_⟩
      rw [Option.some.inj haddr, hnat ht]
  · rintro ⟨t, ht, haddr⟩
    rw [address?_of_marks hc ht, Option.some.injEq, ← UInt16.toNat_inj, hnat ht, haddr]

end Program

end M6502
