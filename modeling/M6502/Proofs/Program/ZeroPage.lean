import M6502.Proofs.Program.Growth
import Mathlib.Data.List.Induction
import Mathlib.Data.List.Nodup

/-!
# Zero-page variables

Every request appends its name to the variables, unless the name is there or
no slot is left. So the variables are the names that were requested, each once
and in the order of their first requests, and a slot is a place among them.
-/

set_option autoImplicit false

namespace M6502

def Call.requested (calls : List Call) : List String :=
  calls.filterMap fun
    | .setVariable name => some name
    | _ => none

theorem Call.requested_concat (calls : List Call) (name : String) :
    requested (calls ++ [.setVariable name]) = requested calls ++ [name] := by
  simp [requested]

theorem Call.requested_concat_other {c : Call} (hc : ∀ name, c ≠ .setVariable name)
    (calls : List Call) : requested (calls ++ [c]) = requested calls := by
  cases c with
  | setVariable name => exact absurd rfl (hc name)
  | _ => simp [requested]

theorem eraseDups_concat (names : List String) (name : String) :
    (names ++ [name]).eraseDups =
      if name ∈ names then names.eraseDups else names.eraseDups ++ [name] := by
  rw [List.eraseDups_append]
  by_cases h : name ∈ names
  · simp [h, List.removeAll]
  · simp [h, List.removeAll, List.eraseDups_cons]

namespace Program

theorem attemptAll_concat (p : Program) (calls : List Call) (c : Call) :
    p.attemptAll (calls ++ [c]) = (p.attemptAll calls).attempt c := by
  rw [attemptAll_append]
  rfl

theorem zeroPage_attempt {c : Call} (hc : ∀ name, c ≠ .setVariable name) (p : Program) :
    (p.attempt c).zeroPage = p.zeroPage := by
  unfold attempt
  split
  · rename_i q h
    exact (frame_of_apply h).zeroPage_eq hc
  · rfl

theorem zeroPage_attempt_setVariable (p : Program) (name : String) :
    (p.attempt (.setVariable name)).zeroPage =
      if name ∈ p.zeroPage ∨ slots ≤ p.zeroPage.length then p.zeroPage
      else p.zeroPage ++ [name] := by
  have happly : Call.apply p (.setVariable name) = p.setVariable name := rfl
  rw [attempt, happly, setVariable]
  by_cases hname : name ∈ p.zeroPage
  · simp [hname]
  · by_cases hfull : p.zeroPage.length < slots
    · simp [hname, hfull, Nat.not_le.2 hfull]
    · simp [hname, hfull, Nat.not_lt.1 hfull]

/-- The variables are the first names that were requested, as many as there are slots. -/
theorem zeroPage_attemptAll (size : Nat) (calls : List Call) :
    ((empty size).attemptAll calls).zeroPage = (Call.requested calls).eraseDups.take slots := by
  induction calls using List.reverseRecOn with
  | nil => rfl
  | append_singleton calls c ih =>
    rw [attemptAll_concat]
    by_cases hc : ∃ name, c = .setVariable name
    · obtain ⟨name, rfl⟩ := hc
      rw [zeroPage_attempt_setVariable, ih, Call.requested_concat, eraseDups_concat]
      generalize hnames : (Call.requested calls).eraseDups = names
      have hmem : name ∈ Call.requested calls ↔ name ∈ names := by
        rw [← hnames, List.mem_eraseDups]
      rw [List.length_take]
      by_cases hroom : names.length < slots
      · have hall : names.take slots = names := List.take_of_length_le (by omega)
        by_cases hname : name ∈ names
        · rw [hall, if_pos (.inl hname), if_pos (hmem.2 hname), hall]
        · rw [hall, if_neg (not_or.2 ⟨hname, by omega⟩), if_neg (hmem.not.2 hname),
            List.take_of_length_le]
          rw [List.length_append, List.length_singleton]
          omega
      · rw [if_pos (.inr (by omega))]
        split
        · rfl
        · rw [List.take_append_of_le_length (by omega)]
    · rw [zeroPage_attempt (not_exists.1 hc), ih, Call.requested_concat_other (not_exists.1 hc)]

theorem nodup_zeroPage (size : Nat) (calls : List Call) :
    ((empty size).attemptAll calls).zeroPage.Nodup := by
  induction calls using List.reverseRecOn with
  | nil => exact List.nodup_nil
  | append_singleton calls c ih =>
    rw [attemptAll_concat]
    by_cases hc : ∃ name, c = .setVariable name
    · obtain ⟨name, rfl⟩ := hc
      rw [zeroPage_attempt_setVariable]
      split
      · exact ih
      · rename_i hnew
        rw [not_or] at hnew
        rw [← List.concat_eq_append]
        exact ih.concat hnew.1
    · rw [zeroPage_attempt (not_exists.1 hc)]
      exact ih

/-- A slot is the place of its name, as long as the places have numbers in one byte. -/
theorem slot?_eq_some_iff {p : Program} (hnodup : p.zeroPage.Nodup)
    (hlength : p.zeroPage.length ≤ slots) {name : String} {s : UInt8} :
    p.slot? name = some s ↔ p.zeroPage[s.toNat]? = some name := by
  have hbyte {i : Nat} (hi : i < p.zeroPage.length) : (UInt8.ofNat i).toNat = i := by
    rw [UInt8.toNat_ofNat']
    exact Nat.mod_eq_of_lt (Nat.lt_of_lt_of_le hi hlength)
  rw [slot?, Option.map_eq_some_iff]
  constructor
  · rintro ⟨i, hi, rfl⟩
    obtain ⟨hlt, hget, -⟩ := List.idxOf?_eq_some_iff.1 hi
    rw [hbyte hlt, List.getElem?_eq_getElem hlt, hget]
  · intro h
    obtain ⟨hlt, hget⟩ := List.getElem?_eq_some_iff.1 h
    refine ⟨s.toNat, List.idxOf?_eq_some_iff.2 ⟨hlt, hget, fun j hj hsame => ?_⟩, UInt8.ofNat_toNat⟩
    rw [← hget, hnodup.getElem_inj_iff] at hsame
    omega

theorem slot?_iff_requested (size : Nat) (calls : List Call) {name : String} {s : UInt8} :
    ((empty size).attemptAll calls).slot? name = some s ↔
      (Call.requested calls).eraseDups[s.toNat]? = some name := by
  have hlength : ((empty size).attemptAll calls).zeroPage.length ≤ slots := by
    rw [zeroPage_attemptAll, List.length_take]
    omega
  rw [slot?_eq_some_iff (nodup_zeroPage size calls) hlength, zeroPage_attemptAll,
    List.getElem?_take, if_pos (show s.toNat < slots from s.toNat_lt)]

theorem taken_iff (size : Nat) (calls : List Call) (s : UInt8) :
    (∃ name, ((empty size).attemptAll calls).slot? name = some s) ↔
      s.toNat < (Call.requested calls).eraseDups.length := by
  simp only [slot?_iff_requested]
  constructor
  · rintro ⟨name, h⟩
    exact (List.getElem?_eq_some_iff.1 h).1
  · intro h
    exact ⟨_, List.getElem?_eq_getElem h⟩

theorem full_iff (size : Nat) (calls : List Call) :
    slots ≤ ((empty size).attemptAll calls).zeroPage.length ↔
      ∀ s, ∃ name, ((empty size).attemptAll calls).slot? name = some s := by
  simp only [taken_iff]
  rw [zeroPage_attemptAll, List.length_take]
  constructor
  · intro h s
    have hs : s.toNat < slots := s.toNat_lt
    omega
  · intro h
    have hlast := h 255
    have hnat : (255 : UInt8).toNat + 1 = slots := rfl
    omega

theorem setVariable_error_iff {p : Program} {name : String} {e : ProgramError} :
    p.setVariable name = .error e ↔
      (name ∉ p.zeroPage ∧ slots ≤ p.zeroPage.length) ∧ e = .zeroPageFull name := by
  unfold setVariable
  by_cases hname : name ∈ p.zeroPage
  · simp [hname]
  · by_cases hfull : p.zeroPage.length < slots
    · simp [hname, hfull, Nat.not_le.2 hfull]
    · simp [hname, hfull, Nat.not_lt.1 hfull, eq_comm]

theorem setVariable_held {p : Program} {name : String} {s : UInt8} (h : p.slot? name = some s) :
    p.setVariable name = .ok p := by
  have hname : name ∈ p.zeroPage := by
    by_contra hnew
    rw [slot?_eq_none_iff.2 hnew] at h
    contradiction
  rw [setVariable, if_pos hname]

theorem request_cases (p : Program) (name : String) :
    (∃ s q, (Builder.request name).on p = (.ok s, q) ∧ p.setVariable name = .ok q ∧
      q.slot? name = some s) ∨
    ∃ e, (Builder.request name).on p = (.error e, p) ∧ p.setVariable name = .error e := by
  have hon := Builder.on_request p name
  cases hset : p.setVariable name with
  | ok q =>
    simp only [hset] at hon
    obtain ⟨s, hs, hon⟩ := hon
    exact .inl ⟨s, q, hon, rfl, hs⟩
  | error e =>
    simp only [hset] at hon
    exact .inr ⟨e, hon, rfl⟩

theorem request_ok {p q : Program} {name : String} {s : UInt8}
    (h : (Builder.request name).on p = (.ok s, q)) :
    p.setVariable name = .ok q ∧ q.slot? name = some s := by
  rcases request_cases p name with ⟨s', q', hon, hset, hs⟩ | ⟨e, hon, hset⟩
  · rw [hon] at h
    cases h
    exact ⟨hset, hs⟩
  · rw [hon] at h
    cases h

theorem request_error {p q : Program} {name : String} {e : ProgramError}
    (h : (Builder.request name).on p = (.error e, q)) : e = .zeroPageFull name ∧ q = p := by
  rcases request_cases p name with ⟨s, q', hon, hset, hs⟩ | ⟨e', hon, hset⟩
  · rw [hon] at h
    cases h
  · rw [hon] at h
    cases h
    exact ⟨(setVariable_error_iff.1 hset).2, rfl⟩

theorem request_fails_iff (p : Program) (name : String) :
    (∃ e, ((Builder.request name).on p).1 = .error e) ↔
      p.slot? name = none ∧ slots ≤ p.zeroPage.length := by
  rw [slot?_eq_none_iff]
  rcases request_cases p name with ⟨s, q, hon, hset, hs⟩ | ⟨e, hon, hset⟩
  · rw [hon]
    refine iff_of_false (by simp) fun hfull => ?_
    rw [setVariable_error_iff.2 ⟨hfull, rfl⟩] at hset
    contradiction
  · rw [hon]
    exact iff_of_true ⟨e, rfl⟩ (setVariable_error_iff.1 hset).1

/-- The zero page is given out one byte after the other, to names in the order of their first
requests: a slot is the place of its name there. A request answers the slot that its name has from
then on, which is the one that it had before. It fails only for a new name when all slots are
taken, and then changes nothing. -/
theorem slots_by_first_request (size : Nat) (calls : List Call) :
    let p := (empty size).attemptAll calls
    let names := (Call.requested calls).eraseDups
    (∀ name (s : UInt8), p.slot? name = some s ↔ names[s.toNat]? = some name) ∧
    (∀ a b s, p.slot? a = some s → p.slot? b = some s → a = b) ∧
    (∀ s : UInt8, (∃ name, p.slot? name = some s) ↔ s.toNat < names.length) ∧
    ∀ name,
      (∀ s q, (Builder.request name).on p = (.ok s, q) → p.setVariable name = .ok q ∧
        (∀ later, (q.attemptAll later).slot? name = some s) ∧
        ∀ held, p.slot? name = some held → s = held ∧ q = p) ∧
      (∀ e q, (Builder.request name).on p = (.error e, q) → e = .zeroPageFull name ∧ q = p) ∧
      ((∃ e, ((Builder.request name).on p).1 = .error e) ↔
        p.slot? name = none ∧ ∀ s, ∃ other, p.slot? other = some s) := by
  intro p names
  refine ⟨fun name s => slot?_iff_requested size calls, ?_, taken_iff size calls, ?_⟩
  · intro a b s ha hb
    have hplace := (slot?_iff_requested size calls).1 ha
    rw [(slot?_iff_requested size calls).1 hb] at hplace
    exact (Option.some.inj hplace).symm
  · intro name
    refine ⟨?_, fun e q h => request_error h, ?_⟩
    · intro s q h
      obtain ⟨hset, hs⟩ := request_ok h
      refine ⟨hset, fun later => (q.extends_attemptAll later).slot name s hs, ?_⟩
      intro held hheld
      have hsame : p = q := Except.ok.inj ((setVariable_held hheld).symm.trans hset)
      rw [hsame, hs] at hheld
      exact ⟨Option.some.inj hheld, hsame.symm⟩
    · rw [request_fails_iff, full_iff]

/-- Asked for again, the second of two variables keeps its slot. -/
theorem slots_by_first_request_again :
    let p := (empty 8).attemptAll [.setVariable "a", .putBytes [7], .setVariable "b"]
    p.slot? "b" = some 1 ∧ (Builder.request "b").on p = (.ok 1, p) := by
  intro p
  obtain ⟨hplace, -, -, hrequest⟩ :=
    slots_by_first_request 8 [.setVariable "a", .putBytes [7], .setVariable "b"]
  have hb : p.slot? "b" = some 1 := (hplace "b" 1).2 (by decide)
  refine ⟨hb, ?_⟩
  rcases request_cases p "b" with ⟨s, q, hon, -, -⟩ | ⟨e, hon, -⟩
  · obtain ⟨rfl, rfl⟩ := ((hrequest "b").1 s q hon).2.2 1 hb
    exact hon
  · have hfails := (hrequest "b").2.2.1 ⟨e, by rw [hon]⟩
    rw [hb] at hfails
    exact absurd hfails.1 (Option.some_ne_none 1)

end Program

end M6502
