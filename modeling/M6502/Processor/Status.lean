/-!
# The status register

Eight flags, which the stack and the outside world see as one byte.
-/

set_option autoImplicit false

namespace M6502

inductive Flag where
  | carry | zero | interruptDisable | decimal | brk | unused | overflow | negative
  deriving DecidableEq, Repr

namespace Flag

def all : List Flag :=
  [.carry, .zero, .interruptDisable, .decimal, .brk, .unused, .overflow, .negative]

def letter : Flag → String
  | .carry => "C"
  | .zero => "Z"
  | .interruptDisable => "I"
  | .decimal => "D"
  | .brk => "B"
  | .unused => "U"
  | .overflow => "V"
  | .negative => "N"

def ofLetter? (s : String) : Option Flag :=
  all.find? fun f => f.letter == s

end Flag

structure Status where
  carry : Bool
  zero : Bool
  interruptDisable : Bool
  /-- Stored, and acted on by no instruction. -/
  decimal : Bool
  brk : Bool
  unused : Bool
  overflow : Bool
  negative : Bool
  deriving DecidableEq, Repr

namespace Status

def clear : Status :=
  ⟨false, false, false, false, false, false, false, false⟩

def get (s : Status) : Flag → Bool
  | .carry => s.carry
  | .zero => s.zero
  | .interruptDisable => s.interruptDisable
  | .decimal => s.decimal
  | .brk => s.brk
  | .unused => s.unused
  | .overflow => s.overflow
  | .negative => s.negative

def set (s : Status) : Flag → Bool → Status
  | .carry, on => { s with carry := on }
  | .zero, on => { s with zero := on }
  | .interruptDisable, on => { s with interruptDisable := on }
  | .decimal, on => { s with decimal := on }
  | .brk, on => { s with brk := on }
  | .unused, on => { s with unused := on }
  | .overflow, on => { s with overflow := on }
  | .negative, on => { s with negative := on }

def toByte (s : Status) : UInt8 :=
  UInt8.ofNat (s.carry.toNat + 2 * s.zero.toNat + 4 * s.interruptDisable.toNat
    + 8 * s.decimal.toNat + 16 * s.brk.toNat + 32 * s.unused.toNat + 64 * s.overflow.toNat
    + 128 * s.negative.toNat)

def ofByte (b : UInt8) : Status :=
  let bit (i : Nat) : Bool := b.toNat.testBit i
  ⟨bit 0, bit 1, bit 2, bit 3, bit 4, bit 5, bit 6, bit 7⟩

def pushed (s : Status) (brk : Bool) : UInt8 :=
  { s with brk := brk, unused := true }.toByte

/-- The status that a pulled byte restores: all of its flags but the break flag. -/
def pulled (b : UInt8) : Status :=
  { ofByte b with brk := false }

def describe (s : Status) : String :=
  String.intercalate " | " ((Flag.all.filter s.get).map Flag.letter)

@[simp]
theorem ofByte_toByte (s : Status) : ofByte s.toByte = s := by
  obtain ⟨c, z, i, d, b, u, v, n⟩ := s
  cases c <;> cases z <;> cases i <;> cases d <;> cases b <;> cases u <;> cases v <;> cases n <;>
    rfl

@[simp]
theorem get_set (s : Status) (f g : Flag) (on : Bool) :
    (s.set f on).get g = if f = g then on else s.get g := by
  cases f <;> cases g <;> rfl

end Status

end M6502
