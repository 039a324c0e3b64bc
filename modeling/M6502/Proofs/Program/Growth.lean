import M6502.Proofs.Program.InPlace
import M6502.Proofs.Program.Labels

/-!
# Programs only grow

A call that fails leaves the program as it was. One that succeeds keeps what
was there: the items in front, the address of every label and the slot of
every variable. So a label can be set once only, and the calls that fail can
be left out of a run.
-/

set_option autoImplicit false

namespace M6502.Program

structure Extends (p q : Program) : Prop where
  size_eq : q.size = p.size
  items_prefix : p.items.toList <+: q.items.toList
  minted_le : p.minted ≤ q.minted
  address : ∀ name addr, p.address? name = some addr → q.address? name = some addr
  slot : ∀ name s, p.slot? name = some s → q.slot? name = some s

theorem Extends.refl (p : Program) : p.Extends p :=
  ⟨rfl, List.prefix_rfl, Nat.le_refl _, fun _ _ h => h, fun _ _ h => h⟩

theorem Extends.trans {p q r : Program} (h : p.Extends q) (k : q.Extends r) : p.Extends r where
  size_eq := k.size_eq.trans h.size_eq
  items_prefix := h.items_prefix.trans k.items_prefix
  minted_le := Nat.le_trans h.minted_le k.minted_le
  address name addr ha := k.address name addr (h.address name addr ha)
  slot name s hs := k.slot name s (h.slot name s hs)

theorem slot?_append {p : Program} {name : String} {s : UInt8} (h : p.slot? name = some s)
    (names : List String) :
    ({ p with zeroPage := p.zeroPage ++ names } : Program).slot? name = some s := by
  rw [slot?, Option.map_eq_some_iff] at h ⊢
  obtain ⟨i, hi, hs⟩ := h
  refine ⟨i, ?_, hs⟩
  rw [List.idxOf?] at hi ⊢
  rw [List.findIdx?_append, hi, Option.some_or]

theorem Effect.extends {p q : Program} (h : p.Effect q) : p.Extends q := by
  cases h with
  | append item =>
    refine ⟨rfl, ?_, Nat.le_refl _, fun _ _ ha => ha, fun _ _ hs => hs⟩
    show p.items.toList <+: (p.items.push item).toList
    rw [Array.toList_push]
    exact List.prefix_append _ _
  | label name hname =>
    refine ⟨rfl, List.prefix_rfl, Nat.le_refl _, fun other addr ha => ?_, fun _ _ hs => hs⟩
    have hne : name ≠ other := by
      rintro rfl
      rw [hname] at ha
      contradiction
    simpa [address?, Std.TreeMap.getElem?_insert, hne] using ha
  | origin addr => exact ⟨rfl, List.prefix_rfl, Nat.le_refl _, fun _ _ ha => ha, fun _ _ hs => hs⟩
  | mint => exact ⟨rfl, List.prefix_rfl, Nat.le_succ _, fun _ _ ha => ha, fun _ _ hs => hs⟩
  | zeroPage names =>
    exact ⟨rfl, List.prefix_rfl, Nat.le_refl _, fun _ _ ha => ha,
      fun _ _ hs => slot?_append hs names⟩

theorem extends_attempt (p : Program) (c : Call) : p.Extends (p.attempt c) := by
  rcases p.attempt_cases c with h | h
  · rw [h]
    exact .refl p
  · exact h.extends

theorem extends_attemptAll (p : Program) (calls : List Call) : p.Extends (p.attemptAll calls) := by
  induction calls generalizing p with
  | nil => exact .refl p
  | cons c calls ih => exact (p.extends_attempt c).trans (ih (p.attempt c))

def granted (p : Program) : List Call → List Call
  | [] => []
  | c :: calls =>
    match c.apply p with
    | .ok q => c :: q.granted calls
    | .error _ => p.granted calls

theorem granted_sublist (p : Program) (calls : List Call) : (p.granted calls).Sublist calls := by
  induction calls generalizing p with
  | nil => exact .slnil
  | cons c calls ih =>
    rw [granted]
    split
    · exact (ih _).cons_cons c
    · exact (ih p).cons c

/-- Without the calls that fail, a run ends where it did, and nothing stops it. -/
theorem perform_granted (p : Program) (calls : List Call) :
    p.perform (p.granted calls) = (.ok (), p.attemptAll calls) := by
  induction calls generalizing p with
  | nil => rfl
  | cons c calls ih =>
    show _ = (_, (p.attempt c).attemptAll calls)
    cases h : c.apply p with
    | ok q =>
      simp only [granted, h, perform, attempt]
      exact ih q
    | error e =>
      simp only [granted, h, attempt]
      exact ih p

def carriedOut (p : Program) (calls : List Call) : Program :=
  calls.foldl (fun p c => (c.inPlace.on p).2) p

theorem inPlace_error {p q : Program} {c : Call} {e : ProgramError}
    (h : c.inPlace.on p = (.error e, q)) : c.apply p = .error e ∧ q = p := by
  rw [c.on_inPlace, perform] at h
  cases hc : c.apply p with
  | ok r =>
    rw [hc] at h
    cases h
  | error e =>
    rw [hc] at h
    cases h
    exact ⟨rfl, rfl⟩

theorem inPlace_ok {p q : Program} {c : Call} (h : c.inPlace.on p = (.ok (), q)) :
    c.apply p = .ok q := by
  rw [c.on_inPlace, perform] at h
  cases hc : c.apply p with
  | ok r =>
    rw [hc] at h
    cases h
    rfl
  | error e =>
    rw [hc] at h
    cases h

theorem carriedOut_eq (p : Program) (calls : List Call) :
    p.carriedOut calls = p.attemptAll calls := by
  have hstep : (fun (p : Program) c => (c.inPlace.on p).2) = attempt := by
    funext p c
    rw [c.on_inPlace, perform, attempt]
    cases c.apply p <;> rfl
  rw [carriedOut, hstep, attemptAll]

theorem setLabel_of_address? {p : Program} {name : String} {addr : UInt16}
    (h : p.address? name = some addr) : p.setLabel name = .error (.labelRedefinition name) := by
  rw [setLabel, h]

/-- Carried out in place on any program that calls lead to, a call answers and leaves what
`perform` does. One that fails has changed nothing, and the calls that fail can be left out. One
that succeeds keeps the items, the addresses and the slots that were there, and a label that was
set is refused from then on. -/
theorem append_only (size : Nat) (calls : List Call) :
    let p := (empty size).attemptAll calls
    (∀ c : Call, c.inPlace.on p = p.perform [c]) ∧
    (∀ (c : Call) e q, c.inPlace.on p = (.error e, q) → q = p) ∧
    (∀ later, (p.granted later).Sublist later ∧
      p.perform (p.granted later) = (.ok (), p.carriedOut later)) ∧
    (∀ (c : Call) q, c.inPlace.on p = (.ok (), q) → p.Extends q) ∧
    ∀ name q, (Call.setLabel name).inPlace.on p = (.ok (), q) → ∀ later,
      (Call.setLabel name).inPlace.on (q.carriedOut later) =
        (.error (.labelRedefinition name), q.carriedOut later) := by
  intro p
  refine ⟨fun c => c.on_inPlace p, ?_, ?_, ?_, ?_⟩
  · intro c e q h
    exact (inPlace_error h).2
  · intro later
    rw [carriedOut_eq]
    exact ⟨p.granted_sublist later, p.perform_granted later⟩
  · intro c q h
    exact (effect_of_apply (inPlace_ok h)).extends
  · intro name q h later
    have hset : p.setLabel name = .ok q := inPlace_ok h
    have haddr : q.address? name = some p.here := by
      rw [address?_setLabel hset, if_pos rfl]
    have hlater := (q.extends_attemptAll later).address name _ haddr
    rw [← carriedOut_eq] at hlater
    have hrefused : Call.apply (q.carriedOut later) (.setLabel name) =
        .error (.labelRedefinition name) :=
      setLabel_of_address? hlater
    rw [Call.on_inPlace, perform, hrefused]

/-- A character without a byte comes late in its text, behind bytes that were written before. -/
theorem append_only_lateCharacter :
    ∃ q, (Call.putText "ab€").inPlace.on ((empty 8).attemptAll [.putBytes [7]]) =
        (.error (.outOfRange 8364), q) ∧
      q = (empty 8).attemptAll [.putBytes [7]] := by
  obtain ⟨-, hfailed, -⟩ := append_only 8 [.putBytes [7]]
  have h : ((Call.putText "ab€").inPlace.on ((empty 8).attemptAll [.putBytes [7]])).1 =
      .error (.outOfRange 8364) := by
    rfl
  exact ⟨_, Prod.ext h rfl, hfailed _ _ _ (Prod.ext h rfl)⟩

end M6502.Program
