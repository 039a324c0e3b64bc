import M6502.Proofs.Disassembly.Resync
import M6502.Proofs.Source.RoundTrip

/-!
# Sweeps as partitions

There is one way to cut bytes into whole instructions, single undocumented
bytes and, at the end, an instruction of which a part is missing. A sweep
finds it. Of the whole instructions, and of nothing else, it returns what
they decode to, and a program to which these are added builds to their bytes.
-/

set_option autoImplicit false

namespace M6502

def WholeInstruction (chunk : List UInt8) : Prop :=
  ∃ e : Encoding, chunk.head? = some e.opcode ∧ chunk.length = e.size

def UndocumentedByte (chunk : List UInt8) : Prop :=
  ∃ b, chunk = [b] ∧ ∀ e : Encoding, e.opcode ≠ b

def CutOffInstruction (chunk : List UInt8) : Prop :=
  ∃ e : Encoding, chunk.head? = some e.opcode ∧ chunk.length < e.size

/-- Bytes and the chunks that they consist of. An instruction is cut off only by the end. -/
inductive Partition : List UInt8 → List (List UInt8) → Prop
  | nil : Partition [] []
  | whole {chunk rest : List UInt8} {chunks : List (List UInt8)} (h : WholeInstruction chunk)
      (hrest : Partition rest chunks) : Partition (chunk ++ rest) (chunk :: chunks)
  | undocumented {chunk rest : List UInt8} {chunks : List (List UInt8)}
      (h : UndocumentedByte chunk) (hrest : Partition rest chunks) :
      Partition (chunk ++ rest) (chunk :: chunks)
  | cutOff {chunk : List UInt8} (h : CutOffInstruction chunk) : Partition chunk [chunk]

theorem Partition.flatten_eq {bytes : List UInt8} {chunks : List (List UInt8)}
    (h : Partition bytes chunks) : chunks.flatten = bytes := by
  induction h with
  | nil => rfl
  | whole h hrest ih => rw [List.flatten_cons, ih]
  | undocumented h hrest ih => rw [List.flatten_cons, ih]
  | cutOff h => exact List.flatten_singleton

theorem Instruction.operandOf?_eq_none {e : Encoding} {rest : List UInt8} :
    operandOf? e.size rest = none ↔ rest.length + 1 < e.size := by
  rcases e.size_cases with hs | hs | hs
  · simp [hs, operandOf?]
  · rw [hs]
    cases rest with
    | nil => simp [operandOf?]
    | cons lo rest => simp [operandOf?]
  · rw [hs]
    rcases rest with _ | ⟨lo, _ | ⟨hi, rest⟩⟩
    · simp [operandOf?]
    · simp [operandOf?]
    · simp [operandOf?]

/-- The bytes of a whole instruction are those of its encoding with a word for the operand. -/
theorem wholeInstruction_iff {chunk : List UInt8} :
    WholeInstruction chunk ↔ ∃ (e : Encoding) (w : UInt16), e.Holds w ∧ chunk = e.bytes w := by
  constructor
  · rintro ⟨e, hhead, hlength⟩
    obtain ⟨rest, rfl⟩ := List.head?_eq_some_iff.1 hhead
    rw [List.length_cons] at hlength
    cases ho : Instruction.operandOf? e.size rest with
    | none => exact absurd (Instruction.operandOf?_eq_none.1 ho) (by omega)
    | some operand =>
      obtain ⟨w, hw, -, hbytes⟩ := Instruction.operandOf?_eq_some ho
      rw [List.drop_eq_nil_of_le (by omega), List.append_nil] at hbytes
      exact ⟨e, w, hw, hbytes⟩
  · rintro ⟨e, w, -, rfl⟩
    refine ⟨e, ?_, e.length_bytes w⟩
    have hpos : e.size ≠ 0 := Nat.ne_of_gt e.mode.size_pos
    rw [Encoding.bytes, List.head?_take, if_neg hpos, List.head?_cons]

instance (chunk : List UInt8) : Decidable (WholeInstruction chunk) :=
  decidable_of_iff (∃ e ∈ Encoding.all, chunk.head? = some e.opcode ∧ chunk.length = e.size)
    (exists_congr fun e => and_iff_right e.mem_all)

def wholes (chunks : List (List UInt8)) : List (List UInt8) :=
  chunks.filter fun chunk => WholeInstruction chunk

theorem UndocumentedByte.not_whole {chunk : List UInt8} (h : UndocumentedByte chunk) :
    ¬ WholeInstruction chunk := by
  obtain ⟨b, rfl, hb⟩ := h
  rintro ⟨e, hhead, -⟩
  exact hb e (Option.some.inj hhead).symm

theorem CutOffInstruction.not_whole {chunk : List UInt8} (h : CutOffInstruction chunk) :
    ¬ WholeInstruction chunk := by
  obtain ⟨d, hd, hlt⟩ := h
  rintro ⟨e, he, hlength⟩
  obtain rfl : d = e := Encoding.eq_of_opcode (Option.some.inj (hd.symm.trans he))
  exact Nat.ne_of_lt hlt hlength

def Chunk.bytes : Chunk → List UInt8
  | .instruction i => i.literalBytes
  | .undocumented b => [b]
  | .cutOff bytes => bytes

theorem sweep_undocumented {b : UInt8} (hb : ∀ e : Encoding, e.opcode ≠ b) (rest : List UInt8) :
    sweep (b :: rest) = .undocumented b :: sweep rest := by
  rw [sweep, Encoding.ofOpcode?_eq_none.2 hb]

theorem sweep_cutOff {bytes : List UInt8} (h : CutOffInstruction bytes) :
    sweep bytes = [.cutOff bytes] := by
  obtain ⟨e, hhead, hlt⟩ := h
  obtain ⟨rest, rfl⟩ := List.head?_eq_some_iff.1 hhead
  rw [sweep, e.ofOpcode?_opcode]
  simp only [Instruction.operandOf?_eq_none.2 hlt]

theorem partition_sweep (bytes : List UInt8) :
    Partition bytes ((sweep bytes).map Chunk.bytes) := by
  induction bytes using sweep.induct with
  | case1 =>
    rw [sweep]
    exact .nil
  | case2 b rest hb ih =>
    have hundocumented := Encoding.ofOpcode?_eq_none.1 hb
    rw [sweep_undocumented hundocumented]
    exact .undocumented ⟨b, rfl, hundocumented⟩ ih
  | case3 b rest e hb ho =>
    have hcut : CutOffInstruction (b :: rest) :=
      ⟨e, congrArg some (Encoding.opcode_of_ofOpcode? hb).symm,
        Instruction.operandOf?_eq_none.1 ho⟩
    rw [sweep_cutOff hcut]
    exact .cutOff hcut
  | case4 b rest e hb operand ho ih =>
    obtain ⟨w, hw, -, hbytes⟩ := Instruction.operandOf?_eq_some ho
    rw [Encoding.opcode_of_ofOpcode? hb] at hbytes
    rw [hbytes, sweep_bytes hw, List.map_cons, Chunk.bytes, Instruction.literalBytes_literal]
    exact .whole (wholeInstruction_iff.2 ⟨e, w, hw, rfl⟩) ih

namespace Partition

variable {bytes : List UInt8} {chunks : List (List UInt8)}

/-- There is no other way to cut the bytes than that of the sweep. -/
theorem eq_sweep (h : Partition bytes chunks) : chunks = (sweep bytes).map Chunk.bytes := by
  induction h with
  | nil =>
    rw [sweep]
    rfl
  | whole h hrest ih =>
    obtain ⟨e, w, hw, rfl⟩ := wholeInstruction_iff.1 h
    rw [sweep_bytes hw, List.map_cons, Chunk.bytes, Instruction.literalBytes_literal, ih]
  | undocumented h hrest ih =>
    obtain ⟨b, rfl, hb⟩ := h
    rw [List.singleton_append, sweep_undocumented hb, List.map_cons, Chunk.bytes, ih]
  | cutOff h =>
    rw [sweep_cutOff h]
    rfl

/-- The whole chunks are the bytes of the instructions that the sweep finds. -/
theorem wholes_eq (h : Partition bytes chunks) :
    wholes chunks = ((sweep bytes).filterMap Chunk.instruction?).map Instruction.literalBytes := by
  induction h with
  | nil =>
    rw [sweep]
    rfl
  | whole h hrest ih =>
    rw [wholes, List.filter_cons_of_pos (by simpa using h)]
    obtain ⟨e, w, hw, rfl⟩ := wholeInstruction_iff.1 h
    rw [sweep_bytes hw, List.filterMap_cons, Chunk.instruction?, List.map_cons,
      Instruction.literalBytes_literal, ← ih]
    rfl
  | undocumented h hrest ih =>
    rw [wholes, List.filter_cons_of_neg (by simpa using h.not_whole)]
    obtain ⟨b, rfl, hb⟩ := h
    rw [List.singleton_append, sweep_undocumented hb, List.filterMap_cons]
    exact ih
  | cutOff h =>
    rw [sweep_cutOff h, wholes, List.filter_cons_of_neg (by simpa using h.not_whole)]
    rfl

end Partition

theorem Instruction.decode?_literalBytes {i : Instruction} (h : i.IsLiteral) :
    decode? i.literalBytes = some i := by
  obtain ⟨w, hw, ho⟩ := h
  obtain ⟨e, operand⟩ := i
  obtain rfl : operand = e.literalOperand w := ho
  rw [literalBytes_literal, ← List.append_nil (e.bytes w)]
  exact decode?_bytes hw []

namespace Program

theorem perform_adds (p : Program) {is : List Instruction}
    (h : ∀ i ∈ is, (Item.instruction i).Listable) :
    p.perform (is.map fun i => .add i.encoding.name i.operand) =
      (.ok (), p.extend (is.map .instruction)) := by
  induction is generalizing p with
  | nil => rfl
  | cons i is ih =>
    rw [List.forall_mem_cons] at h
    have hadd : Call.apply p (.add i.encoding.name i.operand) =
        .ok (p.append (.instruction i)) := by
      rw [Call.apply, add, Encoding.ofName?_name]
      exact instruct_listable p h.1
    rw [List.map_cons, perform, hadd]
    exact ih (p.append (.instruction i)) h.2

/-- A clamped build of literal instructions is their bytes, where these have room. -/
theorem build_instructions {size : Nat} {is : List Instruction} (h : ∀ i ∈ is, i.IsLiteral)
    {built : Array UInt8} :
    ((empty size).extend (is.map .instruction)).build true = .ok built ↔
      (is.map Instruction.literalBytes).flatten.length ≤ size ∧
        built = (is.map Instruction.literalBytes).flatten.toArray := by
  have hitems : ((empty size).extend (is.map .instruction)).items.toList = is.map .instruction :=
    items_extend_empty size _
  have hsize : ((empty size).extend (is.map .instruction)).size = size := size_extend _ _
  have hbytes : (is.map Item.instruction).flatMap Item.literalBytes =
      (is.map Instruction.literalBytes).flatten := by
    rw [List.flatMap_map]
    rfl
  rw [build_literal, hitems, hsize, hbytes, if_pos rfl, ← List.size_toArray, fitted_self]
  · rw [hitems]
    exact List.forall_mem_map.2 fun i _ => rfl
  · rw [hitems]
    exact List.forall_mem_map.2 fun i hi => Instruction.unlabelled_of_literal (h i hi)

end Program

/-- Bytes from `start` on are cut into chunks in one way only. Each chunk is a whole documented
instruction or an undocumented byte, unless the last one is an instruction that the end cuts off.
The disassembly returns, in order, what the whole instructions decode to. A program to which these
are added builds to the bytes of the whole instructions, where it has room for them. -/
theorem disassemble_partition (bytes : Array UInt8) (start : Nat) :
    ∃ chunks : List (List UInt8), chunks.flatten = bytes.toList.drop start ∧
      (∀ others, Partition (bytes.toList.drop start) others ↔ others = chunks) ∧
      (wholes chunks).map Instruction.decode? = (disassemble bytes start).map some ∧
      ∀ size, ∃ p, (Program.empty size).perform ((disassemble bytes start).map fun i =>
          .add i.encoding.name i.operand) = (.ok (), p) ∧
        ∀ built, p.build true = .ok built ↔
          (wholes chunks).flatten.length ≤ size ∧ built = (wholes chunks).flatten.toArray := by
  have hpartition := partition_sweep (bytes.toList.drop start)
  have hliteral : ∀ i ∈ disassemble bytes start, i.IsLiteral := fun i hi =>
    literal_of_mem_disassemble hi
  have hwholes : wholes ((sweep (bytes.toList.drop start)).map Chunk.bytes) =
      (disassemble bytes start).map Instruction.literalBytes := hpartition.wholes_eq
  refine ⟨_, hpartition.flatten_eq, fun others => ⟨fun h => h.eq_sweep, ?_⟩, ?_, fun size => ?_⟩
  · rintro rfl
    exact hpartition
  · rw [hwholes, List.map_map]
    exact List.map_congr_left fun i hi => Instruction.decode?_literalBytes (hliteral i hi)
  · refine ⟨_, Program.perform_adds _ fun i hi => Instruction.listable_of_literal (hliteral i hi),
      fun built => ?_⟩
    rw [hwholes]
    exact Program.build_instructions hliteral

/-- A byte that is no opcode, an instruction, and one without its last byte. -/
example : (sweep [0x02, 0xEA, 0xAD, 0x01]).map Chunk.bytes = [[0x02], [0xEA], [0xAD, 0x01]] ∧
    disassemble #[0x02, 0xEA, 0xAD, 0x01] 0 = [⟨.of .nop .implied, .none⟩] := by
  decide +kernel

end M6502
