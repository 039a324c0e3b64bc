import M6502.Text.Numeral
import M6502.Word

/-!
# Images

The memory contents that a file describes: named segments, each from a base
address on. Where segments overlap, the first one counts.
-/

set_option autoImplicit false

namespace M6502

open Text

structure Segment where
  name : String
  base : UInt16
  bytes : Array UInt8
  kind : String
  deriving DecidableEq, Repr

namespace Segment

def stop (s : Segment) : Nat :=
  s.base.toNat + s.bytes.size

def holds (s : Segment) (addr : UInt16) : Bool :=
  s.base.toNat ≤ addr.toNat && addr.toNat < s.stop

def index (s : Segment) (addr : UInt16) : Nat :=
  addr.toNat - s.base.toNat

end Segment

structure Image where
  segments : List Segment
  deriving DecidableEq, Repr

namespace Image

def segmentAt? (img : Image) (addr : UInt16) : Option Segment :=
  img.segments.find? (·.holds addr)

def readByte? (img : Image) (addr : UInt16) : Option UInt8 :=
  (img.segmentAt? addr).map fun s => s.bytes.getD (s.index addr) 0

def readWord? (img : Image) (addr : UInt16) : Option UInt16 := do
  let lo ← img.readByte? addr
  let hi ← img.readByte? (addr + 1)
  return word lo hi

def isMapped (img : Image) (addr : UInt16) : Bool :=
  (img.readByte? addr).isSome

end Image

inductive ImageError where
  | skipExceedsFile
  | lengthExceedsRest
  | doesNotFit (size : Nat) (base : UInt16)
  | missingSignature
  | unsupportedBanks (banks : UInt8)
  | truncated (size needed : Nat)
  deriving DecidableEq, Repr

def ImageError.message : ImageError → String
  | .skipExceedsFile => "--skip exceeds file size"
  | .lengthExceedsRest => "--len exceeds remaining file size after skip"
  | .doesNotFit size base =>
    "image of " ++ toString size ++ " bytes does not fit at " ++ markedHex 4 base.toNat
  | .missingSignature => "missing iNES signature"
  | .unsupportedBanks banks =>
    toString banks.toNat ++ " PRG banks need a mapper; only 1 or 2 are supported"
  | .truncated size needed =>
    "file truncated: " ++ toString size ++ " bytes, header needs " ++ toString needed

def Image.ofFile (file : Array UInt8) (base : UInt16) (skip : Nat) (limit : Option Nat) :
    Except ImageError Image :=
  if file.size < skip then .error .skipExceedsFile
  else
    let rest := file.extract skip file.size
    if limit.any (rest.size < ·) then .error .lengthExceedsRest
    else
      let payload := rest.take (limit.getD rest.size)
      if 0x10000 < base.toNat + payload.size then .error (.doesNotFit payload.size base)
      else .ok ⟨[⟨"segment0", base, payload, "raw"⟩]⟩

end M6502
