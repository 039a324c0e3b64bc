import M6502.Processor.Arithmetic
import M6502.Proofs.Processor.Displacement
import Mathlib.Algebra.Group.Nat.Defs

/-!
# Numbers of several bytes

Bytes stand for a number, the lowest first, and for a signed one when its top
bit counts as negative. Added byte by byte, with each carry handed on to the
next, they give the sum of the numbers: its upper part is the last carry, and
the last overflow says that the signed sum has no room.
-/

set_option autoImplicit false

namespace M6502

def number (b : Nat → UInt8) : Nat → Nat
  | 0 => 0
  | n + 1 => number b n + 256 ^ n * (b n).toNat

def signed (n v : Nat) : Int :=
  if 2 * v < 256 ^ n then v else v - (256 ^ n : Nat)

def Fits (n : Nat) (z : Int) : Prop :=
  -(256 ^ n : Nat) ≤ 2 * z ∧ 2 * z < (256 ^ n : Nat)

instance (n : Nat) (z : Int) : Decidable (Fits n z) :=
  inferInstanceAs (Decidable (_ ∧ _))

theorem size_even (n : Nat) : 256 ^ (n + 1) = 2 * (128 * 256 ^ n) := by
  rw [Nat.pow_succ]
  omega

theorem number_congr {b d : Nat → UInt8} {n : Nat} (h : ∀ i < n, b i = d i) :
    number b n = number d n := by
  induction n with
  | zero => rfl
  | succ n ih =>
    rw [number, number, h n (Nat.lt_succ_self n), ih fun i hi => h i (Nat.lt_succ_of_lt hi)]

theorem number_lt (b : Nat → UInt8) (n : Nat) : number b n < 256 ^ n := by
  induction n with
  | zero => exact Nat.one_pos
  | succ n ih =>
    have hb : (b n).toNat ≤ 255 := Nat.le_of_lt_succ (b n).toNat_lt
    have hmul : 256 ^ n * (b n).toNat ≤ 256 ^ n * 255 := Nat.mul_le_mul_left _ hb
    rw [number, Nat.pow_succ]
    omega

/-- The complement of all bytes is the complement of the number. -/
theorem number_complement (b : Nat → UInt8) (n : Nat) :
    number (fun i => ~~~b i) n + number b n + 1 = 256 ^ n := by
  induction n with
  | zero => rfl
  | succ n ih =>
    have hb : (~~~b n).toNat + (b n).toNat = 255 := by
      have hlt := (b n).toNat_lt
      have hsize : UInt8.size = 256 := rfl
      rw [UInt8.toNat_not, hsize]
      omega
    have hmul : 256 ^ n * (~~~b n).toNat + 256 ^ n * (b n).toNat = 256 ^ n * 255 := by
      rw [← Nat.mul_add, hb]
    rw [number, number, Nat.pow_succ]
    omega

/-- The top bit of the last byte is the top bit of the number. -/
theorem isNegative_last {b : Nat → UInt8} {n : Nat} :
    isNegative (b n) = true ↔ 256 ^ (n + 1) ≤ 2 * number b (n + 1) := by
  have hlow := number_lt b n
  rw [isNegative_iff, number, Nat.pow_succ]
  constructor
  · intro hle
    have hmul : 256 ^ n * 128 ≤ 256 ^ n * (b n).toNat := Nat.mul_le_mul_left _ hle
    omega
  · intro hle
    refine Nat.le_of_not_lt fun hlt => ?_
    have hmul : 256 ^ n * (b n).toNat ≤ 256 ^ n * 127 := Nat.mul_le_mul_left _ (by omega)
    omega

/-- The complement of a number is the complement of its signed number. -/
theorem signed_complement (b : Nat → UInt8) (n : Nat) :
    signed (n + 1) (number (fun i => ~~~b i) (n + 1)) = -1 - signed (n + 1) (number b (n + 1)) := by
  have hcomplement := number_complement b (n + 1)
  have heven := size_even n
  rw [signed, signed]
  split <;> split <;> omega

/-- A sum of bytes and its carry are exact. -/
theorem addWithCarry_exact (a b : UInt8) (c : Bool) :
    (addWithCarry a b c).value.toNat + 256 * (addWithCarry a b c).carry.toNat =
      a.toNat + b.toNat + c.toNat := by
  have ha := a.toNat_lt
  have hb := b.toNat_lt
  have hc := c.toNat_le
  by_cases hover : 255 < a.toNat + b.toNat + c.toNat
  · rw [addWithCarry, decide_eq_true hover, Bool.toNat_true, UInt8.toNat_ofNat']
    omega
  · rw [addWithCarry, decide_eq_false hover, Bool.toNat_false, UInt8.toNat_ofNat']
    omega

def carryInto (x y : Nat → UInt8) (c : Bool) : Nat → Bool
  | 0 => c
  | i + 1 => (addWithCarry (x i) (y i) (carryInto x y c i)).carry

def sumAt (x y : Nat → UInt8) (c : Bool) (i : Nat) : Sum :=
  addWithCarry (x i) (y i) (carryInto x y c i)

variable (x y : Nat → UInt8) (c : Bool)

theorem number_sum (n : Nat) :
    number (fun i => (sumAt x y c i).value) n + 256 ^ n * (carryInto x y c n).toNat =
      number x n + number y n + c.toNat := by
  induction n with
  | zero =>
    rw [Nat.pow_zero, Nat.one_mul]
    rfl
  | succ n ih =>
    have hexact := addWithCarry_exact (x n) (y n) (carryInto x y c n)
    have hmul := congrArg (256 ^ n * ·) hexact
    simp only [Nat.mul_add, Nat.mul_left_comm _ 256] at hmul
    rw [number, number, number, Nat.pow_succ, Nat.mul_assoc, sumAt, carryInto,
      Nat.mul_left_comm _ 256]
    omega

/-- The last carry says that the sum has no room in its bytes. -/
theorem carry_iff (n : Nat) :
    carryInto x y c n = true ↔ 256 ^ n ≤ number x n + number y n + c.toNat := by
  have hsum := number_sum x y c n
  have hlt := number_lt (fun i => (sumAt x y c i).value) n
  cases hcarry : carryInto x y c n with
  | true =>
    rw [hcarry, Bool.toNat_true, Nat.mul_one] at hsum
    exact iff_of_true rfl (by omega)
  | false =>
    rw [hcarry, Bool.toNat_false, Nat.mul_zero] at hsum
    exact iff_of_false Bool.false_ne_true (by omega)

theorem number_sum_mod (n : Nat) :
    number (fun i => (sumAt x y c i).value) n = (number x n + number y n + c.toNat) % 256 ^ n := by
  rw [← number_sum x y c n, Nat.add_mul_mod_self_left, Nat.mod_eq_of_lt (number_lt _ n)]

theorem overflow_addWithCarry {a b : UInt8} {d : Bool} :
    (addWithCarry a b d).overflow = true ↔
      (isNegative a = true ↔ isNegative b = true) ∧
        ¬ (isNegative (addWithCarry a b d).value = true ↔ isNegative a = true) := by
  have hoverflow : (addWithCarry a b d).overflow =
    (isNegative a == isNegative b && isNegative (addWithCarry a b d).value != isNegative a) := rfl
  rw [hoverflow]
  cases isNegative a <;> cases isNegative b <;>
    cases isNegative (addWithCarry a b d).value <;> decide

/-- The last overflow says that the signed sum has no room in its bytes. -/
theorem overflow_iff (n : Nat) :
    (sumAt x y c n).overflow = true ↔
      ¬ Fits (n + 1)
        (signed (n + 1) (number x (n + 1)) + signed (n + 1) (number y (n + 1)) + c.toNat) := by
  have hsum := number_sum x y c (n + 1)
  have hx := number_lt x (n + 1)
  have hy := number_lt y (n + 1)
  have hr := number_lt (fun i => (sumAt x y c i).value) (n + 1)
  have hc := c.toNat_le
  have heven := size_even n
  have hlast : isNegative (sumAt x y c n).value = true ↔ _ :=
    isNegative_last (b := fun i => (sumAt x y c i).value)
  rw [sumAt] at hlast
  rw [sumAt, overflow_addWithCarry, hlast, isNegative_last, isNegative_last, Fits, signed, signed]
  generalize 256 ^ (n + 1) = size at *
  cases hcarry : carryInto x y c (n + 1) with
  | true =>
    rw [hcarry, Bool.toNat_true, Nat.mul_one] at hsum
    split <;> split <;> omega
  | false =>
    rw [hcarry, Bool.toNat_false, Nat.mul_zero] at hsum
    split <;> split <;> omega

end M6502
