import M6502.Program.Item

/-!
# The written form of items

Each item as one line of source text. A line that starts with a semicolon
has no source form of its own and reads as a comment.
-/

set_option autoImplicit false

namespace M6502

open Text

def literal (size : Nat) (v : UInt16) : List Char :=
  '$' :: hexDigits (if size = 2 then 2 else 4) v.toNat

def AddressingMode.write (mode : AddressingMode) (arg : List Char) : List Char :=
  match mode with
  | .immediate => '#' :: arg
  | .zeroPageX | .absoluteX => arg ++ [',', 'x']
  | .zeroPageY | .absoluteY => arg ++ [',', 'y']
  | .indirect => '(' :: arg ++ [')']
  | .indirectX => '(' :: arg ++ [',', 'x', ')']
  | .indirectY => '(' :: arg ++ [')', ',', 'y']
  | .implied | .zeroPage | .absolute | .relative => arg

namespace Instruction

def argument? (i : Instruction) : Option (List Char) :=
  match i.operand with
  | .none => none
  | .value v => some (literal i.size v)
  | .label name => some name.toList
  | .displacement name => some name.toList

def line (i : Instruction) : List Char :=
  match i.argument? with
  | none => i.encoding.mnemonic.letters
  | some arg => i.encoding.mnemonic.letters ++ ' ' :: i.encoding.mode.write arg

end Instruction

def byteList : List UInt8 → List Char
  | [] => []
  | [b] => literal 2 b.toUInt16
  | b :: bs => literal 2 b.toUInt16 ++ [',', ' '] ++ byteList bs

def Datum.line : Datum → List Char
  | .bytes bs => ".byte ".toList ++ byteList bs
  | .label name => ".word ".toList ++ name.toList
  | .displacement name => "; rel ".toList ++ name.toList

namespace Item

def line : Item → List Char
  | .instruction i => i.line
  | .data d => d.line
  | .seek position => "; seek 0x".toList ++ hexDigits 4 position

def text (item : Item) : String :=
  String.ofList item.line

end Item

def namedLine (name : String) (operand : Operand) : String :=
  match Encoding.ofName? name with
  | some e => (Item.instruction ⟨e, operand⟩).text
  | none => "; " ++ name ++ "?"

end M6502
