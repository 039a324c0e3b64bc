import M6502.Processor.Status
import M6502.Word

/-!
# Registers

The programmer's registers, and two that only instructions use: `ad` holds
the last effective address, `sir` the last signed intermediate.
-/

set_option autoImplicit false

namespace M6502

structure Registers where
  a : UInt8
  x : UInt8
  y : UInt8
  sp : UInt8
  pc : UInt16
  ad : UInt16
  sir : Int8
  status : Status
  halted : Bool
  deriving DecidableEq, Repr

inductive Register where
  | a | x | y | sp
  deriving DecidableEq, Repr

namespace Registers

def initial : Registers where
  a := 0
  x := 0
  y := 0
  sp := 0
  pc := 0
  ad := 0
  sir := 0
  status := .clear
  halted := true

def atReset (pc : UInt16) : Registers :=
  { initial with pc := pc }

def get (r : Registers) : Register → UInt8
  | .a => r.a
  | .x => r.x
  | .y => r.y
  | .sp => r.sp

def set (r : Registers) : Register → UInt8 → Registers
  | .a, v => { r with a := v }
  | .x, v => { r with x := v }
  | .y, v => { r with y := v }
  | .sp, v => { r with sp := v }

def flag (r : Registers) (f : Flag) : Bool :=
  r.status.get f

def setFlag (r : Registers) (f : Flag) (on : Bool) : Registers :=
  { r with status := r.status.set f on }

def setResult (r : Registers) (v : UInt8) : Registers :=
  { r with status := { r.status with zero := v == 0, negative := isNegative v } }

def setSigned (r : Registers) (v : UInt16) : Registers :=
  { r with sir := (lowByte v).toInt8 }

def setAddressLow (r : Registers) (v : UInt8) : Registers :=
  { r with ad := word v (highByte r.ad) }

def setAddressHigh (r : Registers) (v : UInt8) : Registers :=
  { r with ad := word (lowByte r.ad) v }

end Registers

end M6502
