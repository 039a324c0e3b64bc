import M6502.Proofs.Disassembly.Decoding
import M6502.Proofs.Program.Stream

/-!
# Reading encodings back

A sweep that begins at an instruction takes exactly the bytes of the
instruction, whatever they look like, and so meets the next instruction at
its first byte. A program of instructions alone is read back as it was
written, with literals where it had labels.
-/

set_option autoImplicit false

namespace M6502

theorem sweep_bytes {e : Encoding} {w : UInt16} (hw : e.Holds w) (rest : List UInt8) :
    sweep (e.bytes w ++ rest) = .instruction ⟨e, e.literalOperand w⟩ :: sweep rest := by
  have hlength : (e.bytes w).tail.length = e.size - 1 := by
    rw [List.length_tail, e.length_bytes]
  rw [e.bytes_eq_cons, List.cons_append, sweep, e.ofOpcode?_opcode]
  simp only [Instruction.operandOf?_bytes hw, ← hlength, List.drop_left]

def Encoding.Takes (e : Encoding) : Operand → Prop
  | .none => e.size = 1
  | .value _ => e.size ≠ 1
  | .label _ => e.size = 3
  | .displacement _ => e.mnemonic.isBranch = true

def Call.Assembles : Call → Prop
  | .add name operand => ∀ e, Encoding.ofName? name = some e → e.Takes operand
  | .instruct e operand => e.Takes operand
  | .setLabel _ | .setOrigin _ => True
  | .put _ | .putWord _ | .putBytes _ | .putText _ | .putLabel _ | .putDisplacement _ => False
  | .includeFile _ | .moveTo _ | .mint | .setVariable _ => False

def Instruction.Shaped (i : Instruction) : Prop :=
  i.encoding.Takes i.operand ∧ ∀ v, i.operand = .value v → i.encoding.Holds v

namespace Program

def literal? (p : Program) (position : Nat) : Operand → Option Operand
  | .none => some .none
  | .value v => some (.value v)
  | .label name => (p.address? name).map .value
  | .displacement name => (p.address? name).map fun addr =>
    .value (UInt8.ofInt (p.distance addr position)).toUInt16

def literalsFrom? (p : Program) (position : Nat) : List Item → Option (List Instruction)
  | [] => some []
  | .instruction i :: items => do
    let operand ← p.literal? position i.operand
    let rest ← p.literalsFrom? (position + i.size) items
    return ⟨i.encoding, operand⟩ :: rest
  | .data _ :: _ | .seek _ :: _ => none

theorem instruct_wide (p : Program) {e : Encoding} {v : UInt16} (h : ¬ e.Holds v) :
    p.instruct e (.value v) = .error (.outOfRange v.toNat) := by
  rw [Encoding.Holds, Classical.not_imp, Nat.not_le] at h
  exact if_pos h

theorem instruct_of_holds (p : Program) {e : Encoding} {operand : Operand}
    (h : ∀ v, operand = .value v → e.Holds v) :
    p.instruct e operand = .ok (p.append (.instruction ⟨e, operand⟩)) := by
  cases operand with
  | value v =>
    have hfit : ¬(e.size = 2 ∧ 0xFF < v.toNat) := by
      rintro ⟨hs, hlt⟩
      exact absurd (h v rfl hs) (by omega)
    rw [instruct, if_neg hfit]
  | none | label | displacement => rfl

theorem instruct_holds {p q : Program} {e : Encoding} {operand : Operand}
    (h : p.instruct e operand = .ok q) : ∀ v, operand = .value v → e.Holds v := by
  rintro v rfl
  by_contra hv
  rw [instruct_wide p hv] at h
  contradiction

theorem attempt_shaped (p : Program) {c : Call} (hc : c.Assembles) :
    (p.attempt c).items = p.items ∨
      ∃ i : Instruction, i.Shaped ∧ (p.attempt c).items = p.items.push (.instruction i) := by
  unfold attempt
  split
  · rename_i q h
    cases c with
    | add name operand =>
      obtain ⟨e, he, rfl⟩ := add_ok h
      have hi : p.instruct e operand = .ok (p.append (.instruction ⟨e, operand⟩)) := by
        rw [Call.apply, add, he] at h
        exact h
      exact .inr ⟨⟨e, operand⟩, ⟨hc e he, instruct_holds hi⟩, rfl⟩
    | instruct e operand =>
      have hq := instruct_ok h
      exact .inr ⟨⟨e, operand⟩, ⟨hc, instruct_holds h⟩, by rw [hq]; rfl⟩
    | setLabel name =>
      obtain ⟨-, rfl⟩ := setLabel_ok h
      exact .inl rfl
    | setOrigin addr => rw [← Except.ok.inj h]; exact .inl rfl
    | _ => exact hc.elim
  · exact .inl rfl

theorem attemptAll_shaped (p : Program) {calls : List Call} (hc : ∀ c ∈ calls, c.Assembles) :
    ∃ is : List Instruction, (∀ i ∈ is, i.Shaped) ∧
      (p.attemptAll calls).items.toList = p.items.toList ++ is.map .instruction := by
  induction calls generalizing p with
  | nil => exact ⟨[], by simp, (List.append_nil _).symm⟩
  | cons c calls ih =>
    rw [List.forall_mem_cons] at hc
    obtain ⟨is, his, hi⟩ := ih (p.attempt c) hc.2
    have hrun : (p.attemptAll (c :: calls)).items.toList =
        (p.attempt c).items.toList ++ is.map .instruction := hi
    rcases p.attempt_shaped hc.1 with h | ⟨i, hshape, h⟩
    · exact ⟨is, his, by rw [hrun, h]⟩
    · have hitems : (p.attemptAll (c :: calls)).items.toList =
          p.items.toList ++ (i :: is).map .instruction := by
        rw [hrun, h, Array.toList_push, List.append_assoc]
        rfl
      exact ⟨i :: is, List.forall_mem_cons.2 ⟨hshape, his⟩, hitems⟩

/-- The word of a shaped operand is the literal that stands for it, and the encoding holds it. -/
theorem literal_of_word {p : Program} {cursor : Nat} {e : Encoding} {operand : Operand}
    (hs : (⟨e, operand⟩ : Instruction).Shaped) {w : UInt16}
    (hw : p.operandWord cursor operand = .ok w) :
    p.literal? cursor operand = some (e.literalOperand w) ∧ e.Holds w := by
  obtain ⟨ht, hv⟩ := hs
  cases operand with
  | none =>
    have hs : e.size = 1 := ht
    have htwo : e.size ≠ 2 := by omega
    rw [Encoding.literalOperand_none hs]
    exact ⟨rfl, Encoding.holds_of_size htwo w⟩
  | value v =>
    have hs : e.size ≠ 1 := ht
    cases hw
    rw [Encoding.literalOperand_value hs]
    exact ⟨rfl, hv w rfl⟩
  | label name =>
    have hs : e.size = 3 := ht
    have ha := resolve_ok_iff.1 hw
    have hone : e.size ≠ 1 := by omega
    have htwo : e.size ≠ 2 := by omega
    rw [Encoding.literalOperand_value hone, literal?, ha]
    exact ⟨rfl, Encoding.holds_of_size htwo w⟩
  | displacement name =>
    have hm : e.mode = .relative := e.relative_iff.2 ht
    have hs : e.size = 2 := by rw [Encoding.size, hm]; rfl
    obtain ⟨d, hd, hw⟩ := bind_ok_iff.1 hw
    obtain ⟨addr, ha, -, rfl⟩ := displacement_ok_iff.1 hd
    have hone : e.size ≠ 1 := by omega
    rw [← Except.ok.inj hw, Encoding.literalOperand_value hone, literal?, ha]
    exact ⟨rfl, e.holds_byte _⟩

theorem sweep_encodeFrom {p : Program} {cursor : Nat} {is : List Instruction}
    (hs : ∀ i ∈ is, i.Shaped) {bytes : List UInt8}
    (h : p.encodeFrom cursor (is.map .instruction) = .ok bytes) :
    ∃ js, p.literalsFrom? cursor (is.map .instruction) = some js ∧
      sweep bytes = js.map .instruction := by
  induction is generalizing cursor bytes with
  | nil =>
    rw [← Except.ok.inj h]
    exact ⟨[], rfl, by rw [sweep]; rfl⟩
  | cons i is ih =>
    rw [List.forall_mem_cons] at hs
    obtain ⟨bs, rest, hbs, hrest, rfl⟩ := encodeFrom_cons_ok_iff.1 h
    obtain ⟨w, hw, hb⟩ := bind_ok_iff.1 hbs
    obtain ⟨hl, hh⟩ := literal_of_word hs.1 hw
    obtain ⟨js, hjs, hsweep⟩ := ih hs.2 hrest
    have hbytes : bs = i.encoding.bytes w := (Except.ok.inj hb).symm
    refine ⟨⟨i.encoding, i.encoding.literalOperand w⟩ :: js, ?_, ?_⟩
    · have htail : p.literalsFrom? (cursor + i.size) (is.map .instruction) = some js := hjs
      simp [literalsFrom?, hl, htail]
    · rw [hbytes, sweep_bytes hh, hsweep]
      rfl

/-- What was built of instructions is read back as they were written, each label replaced by its
address or by the displacement to it. -/
theorem disassemble_build (size : Nat) (calls : List Call) (hc : ∀ c ∈ calls, c.Assembles)
    (bytes : Array UInt8) (h : ((empty size).attemptAll calls).build true = .ok bytes) :
    ((empty size).attemptAll calls).literalsFrom? 0
      ((empty size).attemptAll calls).items.toList = some (disassemble bytes 0) := by
  obtain ⟨is, his, hi⟩ := (empty size).attemptAll_shaped hc
  have hi : ((empty size).attemptAll calls).items.toList = is.map .instruction := hi
  have hu : ∀ item ∈ ((empty size).attemptAll calls).items.toList, item.isUnit = true := by
    rw [hi]
    intro item hm
    obtain ⟨i, -, rfl⟩ := List.mem_map.1 hm
    rfl
  have hbytes := ((build_stream hu).1 h).1
  rw [hi] at hbytes ⊢
  obtain ⟨js, hjs, hsweep⟩ := sweep_encodeFrom his hbytes
  rw [hjs, disassemble, List.drop_zero, hsweep, List.filterMap_map]
  exact congrArg some List.filterMap_some.symm

def loopCalls : List Call := [.setOrigin 0x8000, .setLabel "loop",
  .instruct (.of .cpy .immediate) (.value 0x10), .instruct (.of .jmp .absolute) (.label "end"),
  .instruct (.of .bvs .relative) (.displacement "loop"), .setLabel "end",
  .instruct (.of .nop .implied) .none]

theorem disassemble_build_loop :
    ((empty 16).attemptAll loopCalls).build true =
        .ok #[0xC0, 0x10, 0x4C, 0x07, 0x80, 0x70, 0xF9, 0xEA] ∧
      disassemble #[0xC0, 0x10, 0x4C, 0x07, 0x80, 0x70, 0xF9, 0xEA] 0 =
        [⟨.of .cpy .immediate, .value 0x10⟩, ⟨.of .jmp .absolute, .value 0x8007⟩,
          ⟨.of .bvs .relative, .value 0xF9⟩, ⟨.of .nop .implied, .none⟩] := by
  have hc : ∀ c ∈ loopCalls, c.Assembles := by
    intro c hc
    simp only [loopCalls, List.mem_cons, List.not_mem_nil, or_false] at hc
    rcases hc with rfl | rfl | rfl | rfl | rfl | rfl | rfl
    · trivial
    · trivial
    · show (Encoding.of .cpy .immediate).size ≠ 1
      decide +kernel
    · show (Encoding.of .jmp .absolute).size = 3
      decide +kernel
    · show (Encoding.of .bvs .relative).mnemonic.isBranch = true
      decide +kernel
    · trivial
    · show (Encoding.of .nop .implied).size = 1
      decide +kernel
  have hb : ((empty 16).attemptAll loopCalls).build true =
      .ok #[0xC0, 0x10, 0x4C, 0x07, 0x80, 0x70, 0xF9, 0xEA] := by
    decide +kernel
  have hd := disassemble_build 16 loopCalls hc _ hb
  refine ⟨hb, Option.some.inj (hd.symm.trans ?_)⟩
  decide +kernel

end Program

end M6502
