/-!
# Bytes and words

A word is a low byte and a high byte; in memory the low byte comes first.
The arithmetic of both wraps around, so every rule below is stated on the
natural numbers they stand for.
-/

set_option autoImplicit false

namespace M6502

def word (lo hi : UInt8) : UInt16 :=
  UInt16.ofNat (lo.toNat + 256 * hi.toNat)

def lowByte (w : UInt16) : UInt8 :=
  UInt8.ofNat w.toNat

def highByte (w : UInt16) : UInt8 :=
  UInt8.ofNat (w.toNat / 256)

theorem toNat_word (lo hi : UInt8) : (word lo hi).toNat = lo.toNat + 256 * hi.toNat := by
  have hl := lo.toNat_lt
  have hh := hi.toNat_lt
  simp only [word, UInt16.toNat_ofNat']
  omega

theorem toNat_lowByte (w : UInt16) : (lowByte w).toNat = w.toNat % 256 := by
  simp [lowByte]

theorem toNat_highByte (w : UInt16) : (highByte w).toNat = w.toNat / 256 := by
  have h := w.toNat_lt
  simp only [highByte, UInt8.toNat_ofNat']
  omega

@[simp]
theorem lowByte_word (lo hi : UInt8) : lowByte (word lo hi) = lo := by
  have hl := lo.toNat_lt
  apply UInt8.toNat_inj.1
  rw [toNat_lowByte, toNat_word]
  omega

@[simp]
theorem highByte_word (lo hi : UInt8) : highByte (word lo hi) = hi := by
  have hl := lo.toNat_lt
  apply UInt8.toNat_inj.1
  rw [toNat_highByte, toNat_word]
  omega

@[simp]
theorem word_lowByte_highByte (w : UInt16) : word (lowByte w) (highByte w) = w := by
  apply UInt16.toNat_inj.1
  rw [toNat_word, toNat_lowByte, toNat_highByte]
  omega

def isNegative (b : UInt8) : Bool :=
  0x80 ≤ b

def signExtend (b : UInt8) : UInt16 :=
  if isNegative b then b.toUInt16 + 0xFF00 else b.toUInt16

/-- Write `bytes` into `cells` from index `i` on; what falls past the end is lost. -/
def overwrite (cells : Array UInt8) (i : Nat) : List UInt8 → Array UInt8
  | [] => cells
  | b :: bytes => overwrite (cells.setIfInBounds i b) (i + 1) bytes

@[simp]
theorem size_overwrite (cells : Array UInt8) (i : Nat) (bytes : List UInt8) :
    (overwrite cells i bytes).size = cells.size := by
  induction bytes generalizing cells i with
  | nil => rfl
  | cons b bytes ih => simp [overwrite, ih]

end M6502
