import M6502.Disassembly
import M6502.Image.Basic
import M6502.Program.Listing

/-!
# Listings of images

A range of an image as lines, each an instruction or a single byte that is
none, with the address and the bytes it stands for. The listing ends at the
first address that is in no segment. Positions go on behind the end of the
address space, where their addresses begin anew.
-/

set_option autoImplicit false

namespace M6502

structure ImageLine where
  addr : UInt16
  bytes : List UInt8
  /-- What the bytes stand for; `none` where nothing is mapped. -/
  item : Option Item
  deriving DecidableEq

namespace ImageLine

def text (l : ImageLine) : String :=
  match l.item with
  | some item => item.text
  | none => "<unmapped>"

end ImageLine

namespace Segment

def itemAt (s : Segment) (addr : UInt16) : Item :=
  match Instruction.decodeAt? s.bytes (s.index addr) with
  | some i => .instruction i
  | none => .data (.bytes [s.bytes.getD (s.index addr) 0])

theorem length_itemAt_pos (s : Segment) (addr : UInt16) : 0 < (s.itemAt addr).length := by
  unfold itemAt
  split
  · exact Instruction.size_pos _
  · exact Nat.one_pos

def slice (s : Segment) (addr : UInt16) (length : Nat) : List UInt8 :=
  (s.bytes.extract (s.index addr) (s.index addr + length)).toList

end Segment

def Image.list (img : Image) (stop position : Nat) : List ImageLine :=
  if position < stop then
    let addr := UInt16.ofNat position
    match img.segmentAt? addr with
    | none => [⟨addr, [], none⟩]
    | some s =>
      let item := s.itemAt addr
      ⟨addr, s.slice addr item.length, some item⟩ :: img.list stop (position + item.length)
  else []
termination_by stop - position
decreasing_by
  have := s.length_itemAt_pos (UInt16.ofNat position)
  omega

def Image.listing (img : Image) (start : UInt16) (stop : Nat) : List ImageLine :=
  img.list stop start.toNat

end M6502
