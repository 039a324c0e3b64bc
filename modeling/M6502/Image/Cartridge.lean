import M6502.Image.Basic

/-!
# Cartridges

A cartridge file is a header of sixteen bytes, a trainer of 512 bytes when
the header says so, the banks of program memory and the banks of picture
memory. One bank of program memory shows twice in the address space.
-/

set_option autoImplicit false

namespace M6502

def programBank : Nat := 0x4000
def pictureBank : Nat := 0x2000

structure CartridgeHeader where
  programBanks : UInt8
  pictureBanks : UInt8
  flags6 : UInt8
  flags7 : UInt8
  deriving DecidableEq, Repr

namespace CartridgeHeader

def mapper (h : CartridgeHeader) : UInt8 :=
  UInt8.ofNat (h.flags7.toNat / 16 * 16 + h.flags6.toNat / 16)

def hasTrainer (h : CartridgeHeader) : Bool :=
  h.flags6.toNat.testBit 2

def programStart (h : CartridgeHeader) : Nat :=
  16 + if h.hasTrainer then 512 else 0

def programStop (h : CartridgeHeader) : Nat :=
  h.programStart + h.programBanks.toNat * programBank

def pictureStop (h : CartridgeHeader) : Nat :=
  h.programStop + h.pictureBanks.toNat * pictureBank

end CartridgeHeader

structure Cartridge where
  header : CartridgeHeader
  image : Image
  picture : Array UInt8
  deriving DecidableEq, Repr

namespace Cartridge

def signature : Array UInt8 := #[0x4E, 0x45, 0x53, 0x1A]

def header? (file : Array UInt8) : Option CartridgeHeader :=
  if 16 ≤ file.size ∧ file.take 4 = signature then
    some ⟨file.getD 4 0, file.getD 5 0, file.getD 6 0, file.getD 7 0⟩
  else none

def segments (banks : UInt8) (program : Array UInt8) : List Segment :=
  let main : Segment := ⟨"prg", 0x8000, program, "prg"⟩
  if banks = 1 then [main, ⟨"prg_mirror", 0xC000, program, "prg"⟩] else [main]

def ofFile (file : Array UInt8) : Except ImageError Cartridge :=
  match header? file with
  | none => .error .missingSignature
  | some h =>
    if h.programBanks = 0 ∨ 2 < h.programBanks then .error (.unsupportedBanks h.programBanks)
    else if file.size < h.pictureStop then .error (.truncated file.size h.pictureStop)
    else
      let program := file.extract h.programStart h.programStop
      .ok ⟨h, ⟨segments h.programBanks program⟩, file.extract h.programStop h.pictureStop⟩

end Cartridge

end M6502
