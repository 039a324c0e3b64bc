import M6502.InstructionSet.Mnemonic
import M6502.InstructionSet.OperandText

/-!
# Encodings

The documented encodings, one row for each opcode, in the order of their
opcodes. An encoding is a row of the table together with the fact that it
stands there, so whatever holds of every row holds of every encoding.
-/

set_option autoImplicit false

namespace M6502

open Text

structure Row where
  opcode : UInt8
  mnemonic : Mnemonic
  mode : AddressingMode
  deriving DecidableEq, Repr

def Row.name (r : Row) : String :=
  String.ofList (r.mnemonic.capitals ++ r.mode.ending.toList)

def instructionTable : List Row := [
    ⟨0x00, .brk, .implied⟩, ⟨0x01, .ora, .indirectX⟩, ⟨0x05, .ora, .zeroPage⟩,
    ⟨0x06, .asl, .zeroPage⟩, ⟨0x08, .php, .implied⟩, ⟨0x09, .ora, .immediate⟩,
    ⟨0x0A, .asl, .implied⟩, ⟨0x0D, .ora, .absolute⟩, ⟨0x0E, .asl, .absolute⟩,
    ⟨0x10, .bpl, .relative⟩, ⟨0x11, .ora, .indirectY⟩, ⟨0x15, .ora, .zeroPageX⟩,
    ⟨0x16, .asl, .zeroPageX⟩, ⟨0x18, .clc, .implied⟩, ⟨0x19, .ora, .absoluteY⟩,
    ⟨0x1D, .ora, .absoluteX⟩, ⟨0x1E, .asl, .absoluteX⟩, ⟨0x20, .jsr, .absolute⟩,
    ⟨0x21, .and, .indirectX⟩, ⟨0x24, .bit, .zeroPage⟩, ⟨0x25, .and, .zeroPage⟩,
    ⟨0x26, .rol, .zeroPage⟩, ⟨0x28, .plp, .implied⟩, ⟨0x29, .and, .immediate⟩,
    ⟨0x2A, .rol, .implied⟩, ⟨0x2C, .bit, .absolute⟩, ⟨0x2D, .and, .absolute⟩,
    ⟨0x2E, .rol, .absolute⟩, ⟨0x30, .bmi, .relative⟩, ⟨0x31, .and, .indirectY⟩,
    ⟨0x35, .and, .zeroPageX⟩, ⟨0x36, .rol, .zeroPageX⟩, ⟨0x38, .sec, .implied⟩,
    ⟨0x39, .and, .absoluteY⟩, ⟨0x3D, .and, .absoluteX⟩, ⟨0x3E, .rol, .absoluteX⟩,
    ⟨0x40, .rti, .implied⟩, ⟨0x41, .eor, .indirectX⟩, ⟨0x45, .eor, .zeroPage⟩,
    ⟨0x46, .lsr, .zeroPage⟩, ⟨0x48, .pha, .implied⟩, ⟨0x49, .eor, .immediate⟩,
    ⟨0x4A, .lsr, .implied⟩, ⟨0x4C, .jmp, .absolute⟩, ⟨0x4D, .eor, .absolute⟩,
    ⟨0x4E, .lsr, .absolute⟩, ⟨0x50, .bvc, .relative⟩, ⟨0x51, .eor, .indirectY⟩,
    ⟨0x55, .eor, .zeroPageX⟩, ⟨0x56, .lsr, .zeroPageX⟩, ⟨0x58, .cli, .implied⟩,
    ⟨0x59, .eor, .absoluteY⟩, ⟨0x5D, .eor, .absoluteX⟩, ⟨0x5E, .lsr, .absoluteX⟩,
    ⟨0x60, .rts, .implied⟩, ⟨0x61, .adc, .indirectX⟩, ⟨0x65, .adc, .zeroPage⟩,
    ⟨0x66, .ror, .zeroPage⟩, ⟨0x68, .pla, .implied⟩, ⟨0x69, .adc, .immediate⟩,
    ⟨0x6A, .ror, .implied⟩, ⟨0x6C, .jmp, .indirect⟩, ⟨0x6D, .adc, .absolute⟩,
    ⟨0x6E, .ror, .absolute⟩, ⟨0x70, .bvs, .relative⟩, ⟨0x71, .adc, .indirectY⟩,
    ⟨0x75, .adc, .zeroPageX⟩, ⟨0x76, .ror, .zeroPageX⟩, ⟨0x78, .sei, .implied⟩,
    ⟨0x79, .adc, .absoluteY⟩, ⟨0x7D, .adc, .absoluteX⟩, ⟨0x7E, .ror, .absoluteX⟩,
    ⟨0x81, .sta, .indirectX⟩, ⟨0x84, .sty, .zeroPage⟩, ⟨0x85, .sta, .zeroPage⟩,
    ⟨0x86, .stx, .zeroPage⟩, ⟨0x88, .dey, .implied⟩, ⟨0x8A, .txa, .implied⟩,
    ⟨0x8C, .sty, .absolute⟩, ⟨0x8D, .sta, .absolute⟩, ⟨0x8E, .stx, .absolute⟩,
    ⟨0x90, .bcc, .relative⟩, ⟨0x91, .sta, .indirectY⟩, ⟨0x94, .sty, .zeroPageX⟩,
    ⟨0x95, .sta, .zeroPageX⟩, ⟨0x96, .stx, .zeroPageY⟩, ⟨0x98, .tya, .implied⟩,
    ⟨0x99, .sta, .absoluteY⟩, ⟨0x9A, .txs, .implied⟩, ⟨0x9D, .sta, .absoluteX⟩,
    ⟨0xA0, .ldy, .immediate⟩, ⟨0xA1, .lda, .indirectX⟩, ⟨0xA2, .ldx, .immediate⟩,
    ⟨0xA4, .ldy, .zeroPage⟩, ⟨0xA5, .lda, .zeroPage⟩, ⟨0xA6, .ldx, .zeroPage⟩,
    ⟨0xA8, .tay, .implied⟩, ⟨0xA9, .lda, .immediate⟩, ⟨0xAA, .tax, .implied⟩,
    ⟨0xAC, .ldy, .absolute⟩, ⟨0xAD, .lda, .absolute⟩, ⟨0xAE, .ldx, .absolute⟩,
    ⟨0xB0, .bcs, .relative⟩, ⟨0xB1, .lda, .indirectY⟩, ⟨0xB4, .ldy, .zeroPageX⟩,
    ⟨0xB5, .lda, .zeroPageX⟩, ⟨0xB6, .ldx, .zeroPageY⟩, ⟨0xB8, .clv, .implied⟩,
    ⟨0xB9, .lda, .absoluteY⟩, ⟨0xBA, .tsx, .implied⟩, ⟨0xBC, .ldy, .absoluteX⟩,
    ⟨0xBD, .lda, .absoluteX⟩, ⟨0xBE, .ldx, .absoluteY⟩, ⟨0xC0, .cpy, .immediate⟩,
    ⟨0xC1, .cmp, .indirectX⟩, ⟨0xC4, .cpy, .zeroPage⟩, ⟨0xC5, .cmp, .zeroPage⟩,
    ⟨0xC6, .dec, .zeroPage⟩, ⟨0xC8, .iny, .implied⟩, ⟨0xC9, .cmp, .immediate⟩,
    ⟨0xCA, .dex, .implied⟩, ⟨0xCC, .cpy, .absolute⟩, ⟨0xCD, .cmp, .absolute⟩,
    ⟨0xCE, .dec, .absolute⟩, ⟨0xD0, .bne, .relative⟩, ⟨0xD1, .cmp, .indirectY⟩,
    ⟨0xD5, .cmp, .zeroPageX⟩, ⟨0xD6, .dec, .zeroPageX⟩, ⟨0xD8, .cld, .implied⟩,
    ⟨0xD9, .cmp, .absoluteY⟩, ⟨0xDD, .cmp, .absoluteX⟩, ⟨0xDE, .dec, .absoluteX⟩,
    ⟨0xE0, .cpx, .immediate⟩, ⟨0xE1, .sbc, .indirectX⟩, ⟨0xE4, .cpx, .zeroPage⟩,
    ⟨0xE5, .sbc, .zeroPage⟩, ⟨0xE6, .inc, .zeroPage⟩, ⟨0xE8, .inx, .implied⟩,
    ⟨0xE9, .sbc, .immediate⟩, ⟨0xEA, .nop, .implied⟩, ⟨0xEC, .cpx, .absolute⟩,
    ⟨0xED, .sbc, .absolute⟩, ⟨0xEE, .inc, .absolute⟩, ⟨0xF0, .beq, .relative⟩,
    ⟨0xF1, .sbc, .indirectY⟩, ⟨0xF5, .sbc, .zeroPageX⟩, ⟨0xF6, .inc, .zeroPageX⟩,
    ⟨0xF8, .sed, .implied⟩, ⟨0xF9, .sbc, .absoluteY⟩, ⟨0xFD, .sbc, .absoluteX⟩,
    ⟨0xFE, .inc, .absoluteX⟩]

structure Encoding extends Row where
  documented : toRow ∈ instructionTable
  deriving DecidableEq

namespace Encoding

def all : List Encoding :=
  instructionTable.attach.map fun r => ⟨r.1, r.2⟩

theorem mem_all (e : Encoding) : e ∈ all :=
  List.mem_map.2 ⟨⟨e.toRow, e.documented⟩, List.mem_attach _ _, rfl⟩

def name (e : Encoding) : String :=
  e.toRow.name

def size (e : Encoding) : Nat :=
  e.mode.size

def ofOpcode? (opcode : UInt8) : Option Encoding :=
  all.find? fun e => e.opcode == opcode

def ofName? (name : String) : Option Encoding :=
  all.find? fun e => e.name == name

def ofMnemonic (letters : List Char) : List Encoding :=
  all.filter fun e => e.mnemonic.letters == letters

def ofParts? (mnemonic : Mnemonic) (mode : AddressingMode) : Option Encoding :=
  all.find? fun e => e.mnemonic == mnemonic && e.mode == mode

def of (mnemonic : Mnemonic) (mode : AddressingMode)
    (h : (ofParts? mnemonic mode).isSome = true := by decide) : Encoding :=
  (ofParts? mnemonic mode).get h

def select? (letters operand : List Char) : Option Encoding :=
  all.find? fun e => e.mnemonic.letters == letters && e.mode.accepts operand

def describe (e : Encoding) : String :=
  "InstrDesc \x7b name: \"" ++ e.name ++ "\", opcode: " ++ markedHex 2 e.opcode.toNat ++ ", op: " ++
    e.mnemonic.title ++ ", mode: " ++ e.mode.title ++ " \x7d"

end Encoding

end M6502
