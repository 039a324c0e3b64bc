import M6502.Text.Numeral

/-!
# Shortest decimals

Positive numbers in double precision as a mantissa and a power of two. A
quotient is rounded to the nearest of them, and each of them is written as
the shortest decimal that rounds back to it: the multiple of the greatest
power of ten that lies close enough.
-/

set_option autoImplicit false

namespace M6502.Text

structure Binary where
  mantissa : Nat
  exponent : Int
  deriving DecidableEq, Repr

structure Decimal where
  digits : Nat
  power : Int
  deriving DecidableEq, Repr

def roundDiv (num den : Nat) : Nat :=
  let down := num / den
  let twice := 2 * (num % den)
  if twice < den ∨ (twice = den ∧ down % 2 = 0) then down else down + 1

/-- Twice the distance of a rounded quotient is at most one unit. -/
theorem roundDiv_near (num den : Nat) (h : 0 < den) :
    2 * num ≤ (2 * roundDiv num den + 1) * den ∧ 2 * roundDiv num den * den ≤ 2 * num + den := by
  have hd := Nat.div_add_mod num den
  have hm := Nat.mod_lt num h
  have hc : den * (num / den) = num / den * den := Nat.mul_comm ..
  simp only [roundDiv]
  split
  · rename_i ht
    constructor
    · rw [Nat.add_mul, Nat.mul_assoc]
      omega
    · rw [Nat.mul_assoc]
      omega
  · rename_i ht
    constructor
    · rw [Nat.add_mul, Nat.mul_assoc, Nat.add_mul]
      omega
    · rw [Nat.mul_assoc, Nat.add_mul]
      omega

def shift (base : Nat) (power : Int) (num den : Nat) : Nat × Nat :=
  (num * Nat.pow base power.toNat, den * Nat.pow base (-power).toNat)

namespace Binary

def zero : Binary := ⟨0, -1074⟩

def ofRatio (num den : Nat) : Binary :=
  if num = 0 then zero
  else
    let size : Int := (num.log2 : Int) - den.log2
    let (a, b) := shift 2 (-size) num den
    let exponent := max (-1074) (size - if a < b then 53 else 52)
    let (a, b) := shift 2 (-exponent) num den
    let mantissa := roundDiv a b
    if mantissa = bitBound 53 then ⟨bitBound 52, exponent + 1⟩ else ⟨mantissa, exponent⟩

def isInfinite (x : Binary) : Bool :=
  971 < x.exponent

def scale (x : Binary) (num den : Nat) : Binary :=
  let (a, b) := shift 2 x.exponent (x.mantissa * num) den
  ofRatio a b

def timesTen (x : Binary) (power : Nat) : Binary :=
  let y := ofRatio (Nat.pow 10 power) 1
  let (a, b) := shift 2 y.exponent y.mantissa 1
  x.scale a b

def overTen (x : Binary) (power : Nat) : Binary :=
  let y := ofRatio (Nat.pow 10 power) 1
  let (a, b) := shift 2 y.exponent y.mantissa 1
  x.scale b a

def shrink (x : Binary) (power : Nat) : Binary :=
  if power ≤ 308 then x.overTen power
  else if x.mantissa = 0 then x
  else shrink (x.overTen 308) (power - 308)
termination_by power

def ofDecimal? (d : Decimal) : Option Binary :=
  let x := ofRatio d.digits 1
  if d.power < 0 then some (x.shrink (-d.power).toNat)
  else if x.mantissa = 0 then some x
  else if 308 < d.power then none
  else
    let y := x.timesTen d.power.toNat
    if y.isInfinite then none else some y

/-- Whether `n * 10 ^ power` rounds to the number. The neighbour below a power of two is only
half as far away, and the ends belong to even mantissas. -/
def accepts (x : Binary) (power : Int) (n : Nat) : Bool :=
  let below := if x.mantissa = bitBound 52 ∧ -1074 < x.exponent then 1 else 2
  let (t, s) := shift 10 power n 1
  let (a, b) := shift 2 (x.exponent - 2) 1 1
  let low := (4 * x.mantissa - below) * a * s
  let high := (4 * x.mantissa + 2) * a * s
  let value := t * b
  if x.mantissa % 2 = 0 then low ≤ value && value ≤ high else low < value && value < high

def multiple? (x : Binary) (power : Int) : Option Decimal :=
  let (a, b) := shift 2 x.exponent x.mantissa 1
  let (a, b) := shift 10 (-power) a b
  let near := roundDiv a b
  let far := if near = a / b then near + 1 else a / b
  if 0 < near ∧ x.accepts power near then some ⟨near, power⟩
  else if 0 < far ∧ x.accepts power far then some ⟨far, power⟩
  else none

def shortest (x : Binary) : Decimal :=
  if x.mantissa = 0 then ⟨0, 0⟩
  else ((List.range 640).findSome? fun (i : Nat) => x.multiple? (309 - i)).getD ⟨0, 0⟩

end Binary

namespace Decimal

def text (d : Decimal) : String :=
  if d.digits = 0 then "0.0"
  else
    let digits := Nat.toDigits 10 d.digits
    let point : Int := digits.length + d.power
    String.ofList <|
      if 0 ≤ d.power ∧ point ≤ 16 then digits ++ List.replicate d.power.toNat '0' ++ ['.', '0']
      else if 0 < point ∧ point ≤ 16 then
        digits.take point.toNat ++ '.' :: digits.drop point.toNat
      else if -5 < point ∧ point ≤ 0 then
        '0' :: '.' :: List.replicate (-point).toNat '0' ++ digits
      else
        let fraction := digits.drop 1
        digits.take 1 ++ (if fraction.isEmpty then [] else '.' :: fraction) ++
          'e' :: (if 0 < point then ['+'] else []) ++ (toString (point - 1)).toList

end Decimal

end M6502.Text
