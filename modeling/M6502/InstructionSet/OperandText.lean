import M6502.InstructionSet.AddressingMode
import M6502.Text.Blank
import M6502.Text.Numeral

/-!
# The written form of operands

Each addressing mode has its own written form. Operand text is compared
after it was put in lower case and its blanks were taken out. The number of
hexadecimal digits tells the zero page from the rest of memory.
-/

set_option autoImplicit false

namespace M6502

namespace Text

def isIdentStart (c : Char) : Bool :=
  c.isAlpha || c == '_'

def isIdentChar (c : Char) : Bool :=
  c.isAlphanum || c == '_'

def isIdent : List Char → Bool
  | [] => false
  | c :: s => isIdentStart c && s.all isIdentChar

def isHexLiteral (least most : Nat) : List Char → Bool
  | '$' :: digits =>
    least ≤ digits.length && digits.length ≤ most && digits.all isHexDigit
  | _ => false

def isBinaryLiteral : List Char → Bool
  | '%' :: digits =>
    1 ≤ digits.length && digits.length ≤ 8 && digits.all (fun c => c == '0' || c == '1')
  | _ => false

def isDecimalLiteral (s : List Char) : Bool :=
  1 ≤ s.length && s.length ≤ 3 && s.all Char.isDigit

end Text

namespace AddressingMode

open Text

def isWideTarget (s : List Char) : Bool :=
  isIdent s || isHexLiteral 3 4 s

def isPointer (s : List Char) : Bool :=
  isIdent s || isHexLiteral 1 4 s

def isNarrowTarget (s : List Char) : Bool :=
  isHexLiteral 1 2 s

def insideParens (close : List Char) (p : List Char → Bool) : List Char → Bool
  | '(' :: s => (cutEnd? close s).any p
  | _ => false

def accepts : AddressingMode → List Char → Bool
  | .implied, s => s.isEmpty
  | .immediate, '#' :: s => isHexLiteral 1 2 s || isBinaryLiteral s || isDecimalLiteral s
  | .immediate, _ => false
  | .zeroPage, s => isNarrowTarget s
  | .zeroPageX, s => (cutEnd? [',', 'x'] s).any isNarrowTarget
  | .zeroPageY, s => (cutEnd? [',', 'y'] s).any isNarrowTarget
  | .absolute, s => isWideTarget s
  | .absoluteX, s => (cutEnd? [',', 'x'] s).any isWideTarget
  | .absoluteY, s => (cutEnd? [',', 'y'] s).any isWideTarget
  | .indirect, s => insideParens [')'] isPointer s
  | .indirectX, s => insideParens [',', 'x', ')'] isNarrowTarget s
  | .indirectY, s => insideParens [')', ',', 'y'] isNarrowTarget s
  | .relative, s => isIdent s || isHexLiteral 1 2 s

end AddressingMode

end M6502
