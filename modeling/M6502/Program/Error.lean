import M6502.Text.Numeral

/-!
# Why a program is refused

One constructor for each cause, whether it shows while the program is
written, while it is laid out or while its source text is read.
-/

set_option autoImplicit false

namespace M6502

open Text

inductive ProgramError where
  | unknownInstruction (name : String)
  | labelRedefinition (name : String)
  | undefinedLabel (name : String)
  | outOfRange (value : Int)
  | branchOutOfRange (label : String) (distance : Int)
  | overflow (position size : Nat)
  | beforeOrigin (addr origin : UInt16)
  | zeroPageFull (name : String)
  | noMatchingInstruction (line : Nat) (text : String)
  | unknownDirective (line : Nat) (text : String)
  | unreadable
  deriving DecidableEq, Repr

def ProgramError.message : ProgramError → String
  | .unknownInstruction name => "unknown instruction \x60" ++ name ++ "\x60"
  | .labelRedefinition name => "label \x60" ++ name ++ "\x60 is already defined"
  | .undefinedLabel name => "label \x60" ++ name ++ "\x60 is never defined"
  | .outOfRange value => "value " ++ toString value ++ " does not fit in a byte"
  | .branchOutOfRange label distance =>
    "branch to \x60" ++ label ++ "\x60 spans " ++ toString distance ++ " bytes"
  | .overflow position size =>
    "write at offset " ++ markedHex 4 position ++ " overflows the " ++ toString size ++
      "-byte program"
  | .beforeOrigin addr origin =>
    "cursor " ++ markedHex 4 addr.toNat ++ " lies before origin " ++ markedHex 4 origin.toNat
  | .zeroPageFull name => "zero page has no free slot for \x60" ++ name ++ "\x60"
  | .noMatchingInstruction line text =>
    "line " ++ toString line ++ ": no instruction matches \x60" ++ text ++ "\x60"
  | .unknownDirective line text =>
    "line " ++ toString line ++ ": unknown directive \x60" ++ text ++ "\x60"
  | .unreadable => "file cannot be read"

end M6502
