/-!
# Mnemonics

The documented operations of the NMOS 6502. How an operation finds its
operand is the addressing mode's business, so one mnemonic covers all
encodings of an operation.
-/

set_option autoImplicit false

namespace M6502

inductive Mnemonic where
  | adc | and | asl | bcc | bcs | beq | bit | bmi | bne | bpl | brk | bvc | bvs | clc
  | cld | cli | clv | cmp | cpx | cpy | dec | dex | dey | eor | inc | inx | iny | jmp
  | jsr | lda | ldx | ldy | lsr | nop | ora | pha | php | pla | plp | rol | ror | rti
  | rts | sbc | sec | sed | sei | sta | stx | sty | tax | tay | tsx | txa | txs | tya
  deriving DecidableEq, Repr

namespace Mnemonic

def text : Mnemonic → String
  | .adc => "adc" | .and => "and" | .asl => "asl" | .bcc => "bcc" | .bcs => "bcs"
  | .beq => "beq" | .bit => "bit" | .bmi => "bmi" | .bne => "bne" | .bpl => "bpl"
  | .brk => "brk" | .bvc => "bvc" | .bvs => "bvs" | .clc => "clc" | .cld => "cld"
  | .cli => "cli" | .clv => "clv" | .cmp => "cmp" | .cpx => "cpx" | .cpy => "cpy"
  | .dec => "dec" | .dex => "dex" | .dey => "dey" | .eor => "eor" | .inc => "inc"
  | .inx => "inx" | .iny => "iny" | .jmp => "jmp" | .jsr => "jsr" | .lda => "lda"
  | .ldx => "ldx" | .ldy => "ldy" | .lsr => "lsr" | .nop => "nop" | .ora => "ora"
  | .pha => "pha" | .php => "php" | .pla => "pla" | .plp => "plp" | .rol => "rol"
  | .ror => "ror" | .rti => "rti" | .rts => "rts" | .sbc => "sbc" | .sec => "sec"
  | .sed => "sed" | .sei => "sei" | .sta => "sta" | .stx => "stx" | .sty => "sty"
  | .tax => "tax" | .tay => "tay" | .tsx => "tsx" | .txa => "txa" | .txs => "txs"
  | .tya => "tya"

def letters (m : Mnemonic) : List Char :=
  m.text.toList

def capitals (m : Mnemonic) : List Char :=
  m.letters.map Char.toUpper

def title (m : Mnemonic) : String :=
  String.ofList (m.capitals.take 1 ++ m.letters.drop 1)

def isBranch : Mnemonic → Bool
  | .bcc | .bcs | .beq | .bmi | .bne | .bpl | .bvc | .bvs => true
  | _ => false

end Mnemonic

end M6502
