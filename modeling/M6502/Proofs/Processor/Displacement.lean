import M6502.Word

/-!
# Displacements

A byte that is added to an address as a signed number moves it by at most
128 back and 127 ahead, modulo the address space. A distance in that range
comes back from the byte that holds it.
-/

set_option autoImplicit false

namespace M6502

theorem isNegative_iff {b : UInt8} : isNegative b = true ↔ 128 ≤ b.toNat := by
  rw [isNegative, decide_eq_true_iff, UInt8.le_iff_toNat_le]
  rfl

theorem toInt_toInt8 (b : UInt8) :
    b.toInt8.toInt = if isNegative b then (b.toNat : Int) - 256 else b.toNat := by
  show b.toBitVec.toInt = _
  rw [BitVec.toInt_eq_toNat_cond, UInt8.toNat_toBitVec]
  simp only [isNegative_iff]
  split <;> split <;> omega

theorem toNat_signExtend (b : UInt8) : ((signExtend b).toNat : Int) = b.toInt8.toInt % 0x10000 := by
  have hb := b.toNat_lt
  rw [toInt_toInt8, signExtend]
  split
  · rename_i hneg
    have hneg := isNegative_iff.1 hneg
    have hoff : (0xFF00 : UInt16).toNat = 0xFF00 := rfl
    rw [UInt16.toNat_add, UInt8.toNat_toUInt16, hoff]
    omega
  · rw [UInt8.toNat_toUInt16]
    omega

theorem toNat_branchTarget (pc : UInt16) (b : UInt8) :
    ((pc + 2 + signExtend b).toNat : Int) = ((pc.toNat : Int) + 2 + b.toInt8.toInt) % 0x10000 := by
  have hoffset := toNat_signExtend b
  have htwo : (2 : UInt16).toNat = 2 := rfl
  rw [UInt16.toNat_add, UInt16.toNat_add, htwo]
  omega

theorem toInt_ofInt {d : Int} (hlow : -128 ≤ d) (hhigh : d ≤ 127) :
    (UInt8.ofInt d).toInt8.toInt = d := by
  have hnat : ((UInt8.ofInt d).toNat : Int) = d % 256 := by
    rw [UInt8.ofInt, UInt8.toNat_ofNat']
    omega
  rw [toInt_toInt8]
  split
  · rename_i hneg
    have hneg := isNegative_iff.1 hneg
    omega
  · rename_i hneg
    have hneg := mt isNegative_iff.2 hneg
    omega

end M6502
