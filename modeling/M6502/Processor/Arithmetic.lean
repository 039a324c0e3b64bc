import M6502.Word

/-!
# Arithmetic on bytes

The sums, shifts and comparisons of the processor, with the carry that goes
in and the flags that come out. Subtraction is addition of the complement.
-/

set_option autoImplicit false

namespace M6502

structure Sum where
  value : UInt8
  carry : Bool
  overflow : Bool
  deriving DecidableEq, Repr

/-- `a + b + carry`. The signed sum overflows when both summands have one sign and the
result has the other. -/
def addWithCarry (a b : UInt8) (carry : Bool) : Sum :=
  let total := a.toNat + b.toNat + carry.toNat
  let value := UInt8.ofNat total
  { value := value
    carry := 255 < total
    overflow := isNegative a == isNegative b && isNegative value != isNegative a }

inductive Modification where
  | shiftLeft | shiftRight | rotateLeft | rotateRight | increment | decrement
  deriving DecidableEq, Repr

def Modification.apply : Modification → Bool → UInt8 → UInt8 × Bool
  | .shiftLeft, _, v => (UInt8.ofNat (2 * v.toNat), isNegative v)
  | .shiftRight, _, v => (UInt8.ofNat (v.toNat / 2), v.toNat % 2 == 1)
  | .rotateLeft, carry, v => (UInt8.ofNat (2 * v.toNat + carry.toNat), isNegative v)
  | .rotateRight, carry, v => (UInt8.ofNat (v.toNat / 2 + 128 * carry.toNat), v.toNat % 2 == 1)
  | .increment, carry, v => (v + 1, carry)
  | .decrement, carry, v => (v - 1, carry)

inductive Combination where
  | conjunction | disjunction | exclusion
  deriving DecidableEq, Repr

def Combination.apply : Combination → UInt8 → UInt8 → UInt8
  | .conjunction, a, b => a &&& b
  | .disjunction, a, b => a ||| b
  | .exclusion, a, b => a ^^^ b

end M6502
