import M6502.Disassembly
import M6502.Proofs.InstructionSet.Table

/-!
# Bytes of instructions

The bytes of an encoding with a word for its operand, and what decoding makes
of bytes. A decoded instruction has a literal that its operand bytes hold, so
encoding it again gives the bytes it was decoded from.
-/

set_option autoImplicit false

namespace M6502

namespace Encoding

def bytes (e : Encoding) (w : UInt16) : List UInt8 :=
  [e.opcode, lowByte w, highByte w].take e.size

def literalOperand (e : Encoding) (w : UInt16) : Operand :=
  if e.size = 1 then .none else .value w

def Holds (e : Encoding) (w : UInt16) : Prop :=
  e.size = 2 → w.toNat ≤ 0xFF

theorem holds_of_size {e : Encoding} (h : e.size ≠ 2) (w : UInt16) : e.Holds w := by
  intro h2
  exact absurd h2 h

theorem holds_byte (e : Encoding) (b : UInt8) : e.Holds b.toUInt16 := by
  intro _
  have hb := b.toNat_lt
  rw [UInt8.toNat_toUInt16]
  omega

theorem length_bytes (e : Encoding) (w : UInt16) : (e.bytes w).length = e.size := by
  rw [bytes, List.length_take]
  exact Nat.min_eq_left e.mode.size_le

theorem literalOperand_none {e : Encoding} (h : e.size = 1) (w : UInt16) :
    e.literalOperand w = .none :=
  if_pos h

theorem literalOperand_value {e : Encoding} (h : e.size ≠ 1) (w : UInt16) :
    e.literalOperand w = .value w :=
  if_neg h

theorem bytes_one {e : Encoding} (h : e.size = 1) (w : UInt16) : e.bytes w = [e.opcode] := by
  rw [bytes, h]
  rfl

theorem bytes_two {e : Encoding} (h : e.size = 2) (w : UInt16) :
    e.bytes w = [e.opcode, lowByte w] := by
  rw [bytes, h]
  rfl

theorem bytes_three {e : Encoding} (h : e.size = 3) (w : UInt16) :
    e.bytes w = [e.opcode, lowByte w, highByte w] := by
  rw [bytes, h]
  rfl

theorem bytes_eq_cons (e : Encoding) (w : UInt16) : e.bytes w = e.opcode :: (e.bytes w).tail := by
  rcases e.size_cases with hs | hs | hs
  · rw [bytes_one hs, List.tail_cons]
  · rw [bytes_two hs, List.tail_cons]
  · rw [bytes_three hs, List.tail_cons]

end Encoding

theorem toUInt16_lowByte {w : UInt16} (h : w.toNat ≤ 0xFF) : (lowByte w).toUInt16 = w := by
  apply UInt16.toNat_inj.1
  rw [UInt8.toNat_toUInt16, toNat_lowByte]
  exact Nat.mod_eq_of_lt (by omega)

theorem lowByte_toUInt16 (b : UInt8) : lowByte b.toUInt16 = b := by
  apply UInt8.toNat_inj.1
  have hb := b.toNat_lt
  rw [toNat_lowByte, UInt8.toNat_toUInt16]
  omega

namespace Instruction

def IsLiteral (i : Instruction) : Prop :=
  ∃ w, i.encoding.Holds w ∧ i.operand = i.encoding.literalOperand w

def literalBytes (i : Instruction) : List UInt8 :=
  match i.operand with
  | .value v => i.encoding.bytes v
  | .none | .label _ | .displacement _ => i.encoding.bytes 0

theorem literalBytes_literal (e : Encoding) (w : UInt16) :
    literalBytes ⟨e, e.literalOperand w⟩ = e.bytes w := by
  by_cases h : e.size = 1
  · rw [literalBytes, Encoding.literalOperand_none h, Encoding.bytes_one h, Encoding.bytes_one h]
  · rw [literalBytes, Encoding.literalOperand_value h]

/-- An operand is read from the bytes that the encoding with that operand has. -/
theorem operandOf?_eq_some {e : Encoding} {rest : List UInt8} {operand : Operand}
    (h : operandOf? e.size rest = some operand) :
    ∃ w, e.Holds w ∧ operand = e.literalOperand w ∧
      e.opcode :: rest = e.bytes w ++ rest.drop (e.size - 1) := by
  rcases e.size_cases with hs | hs | hs
  · rw [hs] at h
    have hnone : Operand.none = operand := Option.some.inj h
    have htwo : e.size ≠ 2 := by omega
    rw [← hnone, ← Encoding.literalOperand_none hs 0, hs]
    exact ⟨0, Encoding.holds_of_size htwo 0, rfl, by rw [Encoding.bytes_one hs]; rfl⟩
  · rw [hs] at h
    cases rest with
    | nil => contradiction
    | cons lo rest =>
      have hvalue : Operand.value lo.toUInt16 = operand := Option.some.inj h
      have hone : e.size ≠ 1 := by omega
      rw [← hvalue, ← Encoding.literalOperand_value hone lo.toUInt16, hs]
      exact ⟨_, e.holds_byte lo, rfl, by rw [Encoding.bytes_two hs, lowByte_toUInt16]; rfl⟩
  · rw [hs] at h
    cases rest with
    | nil => contradiction
    | cons lo rest =>
      cases rest with
      | nil => contradiction
      | cons hi rest =>
        have hvalue : Operand.value (word lo hi) = operand := Option.some.inj h
        have hone : e.size ≠ 1 := by omega
        have htwo : e.size ≠ 2 := by omega
        rw [← hvalue, ← Encoding.literalOperand_value hone (word lo hi), hs]
        exact ⟨_, Encoding.holds_of_size htwo _, rfl,
          by rw [Encoding.bytes_three hs, lowByte_word, highByte_word]; rfl⟩

/-- An operand is read back from the bytes of an encoding that holds its word. -/
theorem operandOf?_bytes {e : Encoding} {w : UInt16} (hw : e.Holds w) (rest : List UInt8) :
    operandOf? e.size ((e.bytes w).tail ++ rest) = some (e.literalOperand w) := by
  rcases e.size_cases with hs | hs | hs
  · rw [hs, Encoding.literalOperand_none hs]
    rfl
  · rw [Encoding.bytes_two hs, hs, Encoding.literalOperand_value (by omega)]
    exact congrArg (fun v => some (Operand.value v)) (toUInt16_lowByte (hw hs))
  · rw [Encoding.bytes_three hs, hs, Encoding.literalOperand_value (by omega)]
    exact congrArg (fun v => some (Operand.value v)) (word_lowByte_highByte w)

theorem decode?_bytes {e : Encoding} {w : UInt16} (hw : e.Holds w) (rest : List UInt8) :
    decode? (e.bytes w ++ rest) = some ⟨e, e.literalOperand w⟩ := by
  rw [e.bytes_eq_cons, List.cons_append, decode?, e.ofOpcode?_opcode]
  simp only [operandOf?_bytes hw, Option.map_some]

/-- A decoded instruction is literal, and its bytes are those in front. -/
theorem decode?_eq_some {bytes : List UInt8} {i : Instruction} (h : decode? bytes = some i) :
    i.IsLiteral ∧ bytes.take i.size = i.literalBytes := by
  cases bytes with
  | nil => contradiction
  | cons opcode rest =>
    rw [decode?] at h
    split at h
    · contradiction
    · rename_i e he
      obtain ⟨operand, ho, rfl⟩ := Option.map_eq_some_iff.1 h
      obtain ⟨w, hw, rfl, hbytes⟩ := operandOf?_eq_some ho
      rw [Encoding.opcode_of_ofOpcode? he] at hbytes
      constructor
      · exact ⟨w, hw, rfl⟩
      · have hlen : (⟨e, e.literalOperand w⟩ : Instruction).size = (e.bytes w).length :=
          (e.length_bytes w).symm
        rw [literalBytes_literal, hbytes, hlen, List.take_left]

theorem length_literalBytes (i : Instruction) : i.literalBytes.length = i.size := by
  unfold literalBytes
  split <;> exact i.encoding.length_bytes _

/-- An instruction that decodes inside of bytes ends inside of them. -/
theorem decodeAt?_eq_some {bytes : Array UInt8} {offset : Nat} {i : Instruction}
    (h : decodeAt? bytes offset = some i) :
    i.IsLiteral ∧ (bytes.extract offset (offset + i.size)).toList = i.literalBytes ∧
      offset + i.size ≤ bytes.size := by
  obtain ⟨hi, htake⟩ := decode?_eq_some h
  have hle : i.size ≤ 3 := i.encoding.mode.size_le
  have hpos := i.size_pos
  have hslice : (bytes.extract offset (offset + i.size)).toList = i.literalBytes := by
    rw [← htake, Array.toList_extract, Array.toList_extract, List.extract_eq_take_drop,
      List.extract_eq_take_drop, List.take_take, Nat.add_sub_cancel_left,
      Nat.add_sub_cancel_left, Nat.min_eq_left hle]
  have hlen := congrArg List.length hslice
  rw [length_literalBytes, Array.length_toList, Array.size_extract] at hlen
  exact ⟨hi, hslice, by omega⟩

end Instruction

theorem literal_of_mem_sweep {bytes : List UInt8} {i : Instruction}
    (h : .instruction i ∈ sweep bytes) : i.IsLiteral := by
  induction bytes using sweep.induct with
  | case1 =>
    rw [sweep] at h
    exact absurd h List.not_mem_nil
  | case2 b rest hb ih =>
    rw [sweep, hb] at h
    rcases List.mem_cons.1 h with h | h
    · contradiction
    · exact ih h
  | case3 b rest e hb ho =>
    rw [sweep, hb] at h
    simp only [ho, List.mem_singleton] at h
    contradiction
  | case4 b rest e hb operand ho ih =>
    rw [sweep, hb] at h
    simp only [ho] at h
    rcases List.mem_cons.1 h with h | h
    · obtain ⟨w, hw, hoperand, -⟩ := Instruction.operandOf?_eq_some ho
      cases h
      exact ⟨w, hw, hoperand⟩
    · exact ih h

theorem literal_of_mem_disassemble {bytes : Array UInt8} {start : Nat} {i : Instruction}
    (h : i ∈ disassemble bytes start) : i.IsLiteral := by
  obtain ⟨c, hc, hi⟩ := List.mem_filterMap.1 h
  cases c with
  | instruction j =>
    cases hi
    exact literal_of_mem_sweep hc
  | undocumented b => contradiction
  | cutOff bs => contradiction

end M6502
