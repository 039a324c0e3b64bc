import M6502.Program.Item

/-!
# Disassembly

Bytes read back as instructions with literal operands. A sweep cuts its
input into chunks: whole instructions, single undocumented bytes, and at
most one last instruction whose operand is cut off by the end.
-/

set_option autoImplicit false

namespace M6502

namespace Instruction

def operandOf? (size : Nat) (rest : List UInt8) : Option Operand :=
  match size, rest with
  | 1, _ => some .none
  | 2, lo :: _ => some (.value lo.toUInt16)
  | 3, lo :: hi :: _ => some (.value (word lo hi))
  | _, _ => none

def decode? : List UInt8 → Option Instruction
  | [] => none
  | opcode :: rest =>
    match Encoding.ofOpcode? opcode with
    | none => none
    | some e => (operandOf? e.size rest).map fun operand => ⟨e, operand⟩

def decodeAt? (bytes : Array UInt8) (offset : Nat) : Option Instruction :=
  decode? (bytes.extract offset (offset + 3)).toList

end Instruction

inductive Chunk where
  | instruction (i : Instruction)
  | undocumented (b : UInt8)
  | cutOff (bytes : List UInt8)
  deriving DecidableEq

namespace Chunk

def instruction? : Chunk → Option Instruction
  | .instruction i => some i
  | _ => none

end Chunk

def sweep : List UInt8 → List Chunk
  | [] => []
  | b :: rest =>
    match Encoding.ofOpcode? b with
    | none => .undocumented b :: sweep rest
    | some e =>
      match Instruction.operandOf? e.size rest with
      | none => [.cutOff (b :: rest)]
      | some operand => .instruction ⟨e, operand⟩ :: sweep (rest.drop (e.size - 1))
termination_by bytes => bytes.length
decreasing_by
  · simp
  · simp only [List.length_drop, List.length_cons]
    omega

def disassemble (bytes : Array UInt8) (start : Nat) : List Instruction :=
  (sweep (bytes.toList.drop start)).filterMap Chunk.instruction?

end M6502
