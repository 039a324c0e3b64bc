import M6502.Program.Basic

/-!
# Layout

Laying a program out resolves its labels and writes its items into a block
of `size` bytes. Only here are labels looked up, so an item may refer to a
label that is defined after it. Bytes that no item writes are zero, the
opcode that halts; behind the last byte that was written they take no room.
-/

set_option autoImplicit false

namespace M6502

structure Block where
  /-- The bytes up to the last one that was written. -/
  cells : Array UInt8
  size : Nat
  cursor : Nat
  deriving DecidableEq

def fitted (n : Nat) (cells : Array UInt8) : Array UInt8 :=
  cells.extract 0 n ++ Array.replicate (n - cells.size) 0

@[simp]
theorem size_fitted (n : Nat) (cells : Array UInt8) : (fitted n cells).size = n := by
  simp only [fitted, Array.size_append, Array.size_extract, Array.size_replicate]
  omega

namespace Block

def cleared (size : Nat) : Block :=
  ⟨#[], size, 0⟩

/-- Write bytes at the cursor; all of them have to fit, and no bytes too have to have room. -/
def emit (b : Block) (bytes : List UInt8) : Except ProgramError Block :=
  let stop := b.cursor + bytes.length
  if stop ≤ b.size then
    let room := Array.replicate (stop - b.cells.size) 0
    .ok ⟨overwrite (b.cells ++ room) b.cursor bytes, b.size, stop⟩
  else .error (.overflow b.cursor b.size)

/-- What was written stays within the block. -/
theorem emit_within {b c : Block} {bytes : List UInt8} (h : b.emit bytes = .ok c)
    (hb : b.cells.size ≤ b.size) : c.size = b.size ∧ c.cells.size ≤ c.size := by
  simp only [Block.emit] at h
  split at h
  · cases h
    refine ⟨rfl, ?_⟩
    simp only [size_overwrite, Array.size_append, Array.size_replicate]
    omega
  · contradiction

end Block

namespace Program

def resolve (p : Program) (name : String) : Except ProgramError UInt16 :=
  match p.address? name with
  | some addr => .ok addr
  | none => .error (.undefinedLabel name)

def distance (p : Program) (addr : UInt16) (cursor : Nat) : Int :=
  (addr.toNat : Int) - p.origin.toNat - cursor - 2

def displacement (p : Program) (name : String) (cursor : Nat) : Except ProgramError UInt8 := do
  let d := p.distance (← p.resolve name) cursor
  if -128 ≤ d ∧ d ≤ 127 then .ok (UInt8.ofInt d) else .error (.branchOutOfRange name d)

def operandWord (p : Program) (cursor : Nat) : Operand → Except ProgramError UInt16
  | .none => .ok 0
  | .value v => .ok v
  | .label name => p.resolve name
  | .displacement name => do return (← p.displacement name cursor).toUInt16

def encode (p : Program) (cursor : Nat) : Item → Except ProgramError (List UInt8)
  | .instruction i => do
    let w ← p.operandWord cursor i.operand
    return [i.encoding.opcode, lowByte w, highByte w].take i.size
  | .data (.bytes bs) => .ok bs
  | .data (.label name) => do
    let w ← p.resolve name
    return [lowByte w, highByte w]
  | .data (.displacement name) => do return [← p.displacement name cursor]
  | .seek _ => .ok []

def place (p : Program) (b : Block) : Item → Except ProgramError Block
  | .seek position => .ok { b with cursor := position }
  | item => do b.emit (← p.encode b.cursor item)

def layout (p : Program) : Except ProgramError Block :=
  p.items.foldlM p.place (.cleared p.size)

def build (p : Program) (clamp : Bool) : Except ProgramError (Array UInt8) := do
  let b ← p.layout
  return fitted (if clamp then min b.cursor b.size else b.size) b.cells

end Program

end M6502
