import M6502.Program.Error
import M6502.Program.Item
import Std.Data.TreeMap

/-!
# Programs

A program grows at its end. It keeps where its first byte will be loaded,
where the next item goes, the labels and zero-page variables that were
defined, and how many label names it has made up. An operation that fails
answers no program, so a caller that goes on has the one it started from.
-/

set_option autoImplicit false

namespace M6502

structure Program where
  size : Nat
  /-- Address of the first byte. Labels and displacements depend on it, and no byte moves. -/
  origin : UInt16
  position : Nat
  labels : Std.TreeMap String UInt16
  minted : Nat
  /-- Zero-page variables; each has the slot of its place in the list. -/
  zeroPage : List String
  items : Array Item

namespace Program

def defaultSize : Nat := 0x4000

def empty (size : Nat) : Program where
  size := size
  origin := 0
  position := 0
  labels := ∅
  minted := 0
  zeroPage := []
  items := #[]

def append (p : Program) (item : Item) : Program :=
  { p with position := item.advance p.position, items := p.items.push item }

def instruct (p : Program) (e : Encoding) (operand : Operand) : Except ProgramError Program :=
  match operand with
  | .value v =>
    if e.size = 2 ∧ 0xFF < v.toNat then .error (.outOfRange v.toNat)
    else .ok (p.append (.instruction ⟨e, operand⟩))
  | _ => .ok (p.append (.instruction ⟨e, operand⟩))

def add (p : Program) (name : String) (operand : Operand) : Except ProgramError Program :=
  match Encoding.ofName? name with
  | none => .error (.unknownInstruction name)
  | some e => p.instruct e operand

def putBytes (p : Program) (bs : List UInt8) : Program :=
  p.append (.data (.bytes bs))

def put (p : Program) (value : Int) : Except ProgramError Program :=
  if 0 ≤ value ∧ value ≤ 255 then .ok (p.putBytes [UInt8.ofNat value.toNat])
  else .error (.outOfRange value)

def putWord (p : Program) (value : UInt16) : Program :=
  p.putBytes [lowByte value, highByte value]

def characterByte (c : Char) : Except ProgramError UInt8 :=
  if c.toNat ≤ 255 then .ok (UInt8.ofNat c.toNat) else .error (.outOfRange c.toNat)

def putText (p : Program) (text : String) : Except ProgramError Program := do
  return p.putBytes (← text.toList.mapM characterByte)

def putLabel (p : Program) (name : String) : Program :=
  p.append (.data (.label name))

def putDisplacement (p : Program) (name : String) : Program :=
  p.append (.data (.displacement name))

def includeFile (p : Program) : Option (List UInt8) → Except ProgramError Program
  | some bs => .ok (p.putBytes bs)
  | none => .error .unreadable

def address? (p : Program) (name : String) : Option UInt16 :=
  p.labels[name]?

def here (p : Program) : UInt16 :=
  UInt16.ofNat (p.origin.toNat + p.position)

def setLabel (p : Program) (name : String) : Except ProgramError Program :=
  match p.address? name with
  | some _ => .error (.labelRedefinition name)
  | none => .ok { p with labels := p.labels.insert name p.here }

/-- A label has the address of the place where it was set, and the others keep theirs. -/
theorem address?_setLabel {p q : Program} {name : String} (h : p.setLabel name = .ok q)
    (other : String) :
    q.address? other = if name = other then some p.here else p.address? other := by
  simp only [setLabel] at h
  split at h
  · contradiction
  · cases h
    simp [address?, Std.TreeMap.getElem?_insert]

def sortedLabels (p : Program) : List (String × UInt16) :=
  p.labels.toList

theorem mem_sortedLabels {p : Program} {name : String} {addr : UInt16} :
    (name, addr) ∈ p.sortedLabels ↔ p.address? name = some addr :=
  Std.TreeMap.mem_toList_iff_getElem?_eq_some

def setOrigin (p : Program) (addr : UInt16) : Program :=
  { p with origin := addr }

def moveTo (p : Program) (addr : UInt16) : Except ProgramError Program :=
  if p.origin ≤ addr then .ok (p.append (.seek (addr.toNat - p.origin.toNat)))
  else .error (.beforeOrigin addr p.origin)

def mintedName (stem : String) (n : Nat) : String :=
  stem ++ "_" ++ toString n

def nextName (p : Program) (stem : String) : String :=
  mintedName stem p.minted

def mint (p : Program) : Program :=
  { p with minted := p.minted + 1 }

def slots : Nat := 256

def slot? (p : Program) (name : String) : Option UInt8 :=
  (p.zeroPage.idxOf? name).map UInt8.ofNat

def setVariable (p : Program) (name : String) : Except ProgramError Program :=
  if name ∈ p.zeroPage then .ok p
  else if p.zeroPage.length < slots then .ok { p with zeroPage := p.zeroPage ++ [name] }
  else .error (.zeroPageFull name)

end Program

end M6502
