import M6502.Proofs.Program.Resolution

/-!
# Where items stand

A program counts positions twice: once while calls append items, and once
more while the layout replays them. Placements record the first count as a
caller can see it, `replay` is the second, and the two never part.
-/

set_option autoImplicit false

namespace M6502

structure Placement where
  position : Nat
  item : Item
  deriving DecidableEq

namespace Placement

def stop (u : Placement) : Nat :=
  u.position + u.item.length

def covers (u : Placement) (i : Nat) : Bool :=
  u.position ≤ i && i < u.stop

theorem covers_iff {u : Placement} {i : Nat} :
    u.covers i = true ↔ u.position ≤ i ∧ i < u.stop := by
  simp only [covers, Bool.and_eq_true, decide_eq_true_eq]

def lastOver (us : List Placement) (i : Nat) : Option Placement :=
  (us.filter (·.covers i)).getLast?

theorem mem_of_lastOver {us : List Placement} {i : Nat} {u : Placement}
    (h : lastOver us i = some u) : u ∈ us :=
  (List.mem_filter.1 (List.mem_of_getLast? h)).1

theorem lastOver_append (us vs : List Placement) (i : Nat) :
    lastOver (us ++ vs) i = (lastOver vs i).or (lastOver us i) := by
  unfold lastOver
  rw [List.filter_append, List.getLast?_append]

theorem lastOver_singleton (u : Placement) (i : Nat) :
    lastOver [u] i = if u.position ≤ i ∧ i < u.stop then some u else none := by
  simp only [lastOver, List.filter_cons, List.filter_nil, covers_iff]
  split <;> rfl

end Placement

def Item.isUnit : Item → Bool
  | .seek _ => false
  | .instruction _ | .data _ => true

theorem Item.advance_of_unit {item : Item} (h : item.isUnit = true) (position : Nat) :
    item.advance position = position + item.length := by
  cases item with
  | seek target => contradiction
  | instruction i => rfl
  | data d => rfl

namespace Program

def placed (p : Program) (c : Call) : List Placement :=
  (((p.attempt c).items.toList.drop p.items.size).filter Item.isUnit).map
    fun item => ⟨p.position, item⟩

def placements (p : Program) : List Call → List Placement
  | [] => []
  | c :: calls => p.placed c ++ (p.attempt c).placements calls

end Program

namespace Placement

def replay (cursor : Nat) : List Item → List Placement
  | [] => []
  | item :: items =>
    (if item.isUnit then [⟨cursor, item⟩] else []) ++ replay (item.advance cursor) items

theorem item_of_mem_replay {cursor : Nat} {items : List Item} {u : Placement}
    (h : u ∈ replay cursor items) : u.item ∈ items := by
  induction items generalizing cursor with
  | nil => contradiction
  | cons item items ih =>
    rcases List.mem_append.1 h with h | h
    · split at h
      · rw [List.mem_singleton.1 h]
        exact List.mem_cons_self
      · contradiction
    · exact List.mem_cons_of_mem item (ih h)

theorem mem_replay_of_item {items : List Item} {item : Item} (h : item ∈ items)
    (hu : item.isUnit = true) (cursor : Nat) :
    ∃ position, ⟨position, item⟩ ∈ replay cursor items := by
  induction items generalizing cursor with
  | nil => contradiction
  | cons first items ih =>
    rcases List.mem_cons.1 h with rfl | h
    · refine ⟨cursor, ?_⟩
      rw [replay, if_pos hu]
      exact List.mem_cons_self
    · obtain ⟨position, hposition⟩ := ih h (first.advance cursor)
      exact ⟨position, List.mem_append_right _ hposition⟩

theorem replay_append (cursor : Nat) (xs ys : List Item) :
    replay cursor (xs ++ ys) = replay cursor xs ++ replay (xs.foldl Item.advance cursor) ys := by
  induction xs generalizing cursor with
  | nil => rfl
  | cons x xs ih => simp only [List.cons_append, replay, List.foldl_cons, ih, List.append_assoc]

end Placement

namespace Program

open Placement

/-- One call: the items it appends move the position as the layout moves its cursor. -/
theorem attempt_replay (p : Program) (c : Call) :
    ∃ items, (p.attempt c).items.toList = p.items.toList ++ items ∧
      (p.attempt c).position = items.foldl Item.advance p.position ∧
      p.placed c = replay p.position items := by
  have hsame (hi : (p.attempt c).items = p.items) : p.placed c = [] := by
    rw [placed, hi, ← Array.length_toList, List.drop_length]
    rfl
  rcases p.attempt_cases c with h | h
  · exact ⟨[], by rw [h, List.append_nil], by rw [h]; rfl, hsame (by rw [h])⟩
  · rcases h.items_eq with ⟨hi, hp⟩ | ⟨item, hi, hp⟩
    · exact ⟨[], by rw [hi, List.append_nil], hp, hsame hi⟩
    · refine ⟨[item], by rw [hi, Array.toList_push], hp, ?_⟩
      rw [placed, hi, Array.toList_push, ← Array.length_toList, List.drop_left]
      cases item <;> rfl

/-- A run of calls: the placements that a caller sees are those that the layout replays. -/
theorem attemptAll_replay (p : Program) (calls : List Call) :
    ∃ items, (p.attemptAll calls).items.toList = p.items.toList ++ items ∧
      (p.attemptAll calls).position = items.foldl Item.advance p.position ∧
      p.placements calls = replay p.position items := by
  induction calls generalizing p with
  | nil => exact ⟨[], (List.append_nil _).symm, rfl, rfl⟩
  | cons c calls ih =>
    obtain ⟨xs, hx, px, rx⟩ := p.attempt_replay c
    obtain ⟨ys, hy, py, ry⟩ := ih (p.attempt c)
    refine ⟨xs ++ ys, ?_, ?_, ?_⟩
    · rw [← List.append_assoc, ← hx]
      exact hy
    · rw [List.foldl_append, ← px]
      exact py
    · rw [placements, rx, ry, px, replay_append]

theorem placements_empty (size : Nat) (calls : List Call) :
    (empty size).placements calls = replay 0 ((empty size).attemptAll calls).items.toList := by
  obtain ⟨items, hi, -, hr⟩ := (empty size).attemptAll_replay calls
  rw [hr, hi]
  rfl

theorem position_eq_foldl (size : Nat) (calls : List Call) :
    ((empty size).attemptAll calls).position =
      ((empty size).attemptAll calls).items.toList.foldl Item.advance 0 := by
  obtain ⟨items, hi, hp, -⟩ := (empty size).attemptAll_replay calls
  rw [hp, hi]
  rfl

end Program

end M6502
