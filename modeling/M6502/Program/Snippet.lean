import M6502.Program.Call

/-!
# Snippets

Short sequences of calls for things that programs do often. Addresses are
absolute. A snippet that loops makes up the names of its own labels first.
-/

set_option autoImplicit false

namespace M6502.Snippet

open Encoding (of)

def storeByte (addr : UInt16) (value : Option UInt8) : List Call :=
  match value with
  | some v => [.instruct (of .lda .immediate) (.value v.toUInt16),
      .instruct (of .sta .absolute) (.value addr)]
  | none => [.instruct (of .sta .absolute) (.value addr)]

def storeFrom (addr : UInt16) (source : Option UInt16) : List Call :=
  match source with
  | some src => [.instruct (of .lda .absolute) (.value src),
      .instruct (of .sta .absolute) (.value addr)]
  | none => [.instruct (of .sta .absolute) (.value addr)]

def push : List Call :=
  [.instruct (of .pha .implied) .none]

def pushByte (value : UInt8) : List Call :=
  .instruct (of .lda .immediate) (.value value.toUInt16) :: push

def pushFrom (addr : UInt16) : List Call :=
  .instruct (of .lda .absolute) (.value addr) :: push

def pull : List Call :=
  [.instruct (of .pla .implied) .none]

def pullTo (addr : UInt16) : List Call :=
  pull ++ [.instruct (of .sta .absolute) (.value addr)]

def call (name : String) : List Call :=
  [.instruct (of .jsr .absolute) (.label name)]

def copyLoop (loop : String) (dst src : UInt16) (len : UInt8) : List Call :=
  [.instruct (of .ldx .immediate) (.value 0),
    .setLabel loop,
    .instruct (of .lda .absoluteX) (.value src),
    .instruct (of .sta .absoluteX) (.value dst),
    .instruct (of .inx .implied) .none,
    .instruct (of .cpx .immediate) (.value len.toUInt16),
    .instruct (of .bne .relative) (.displacement loop)]

/-- Copy `len` bytes from `src` to `dst` with X as the index; a `len` of zero copies 256 bytes.
Uses A and X. -/
def copy (p : Program) (dst src : UInt16) (len : UInt8) : List Call :=
  .mint :: copyLoop (p.nextName "copy_loop") dst src len

def divideLoop (bit skip : String) (numerator denominator : UInt16) : List Call :=
  [.instruct (of .lda .immediate) (.value 0),
    .instruct (of .ldx .immediate) (.value 8),
    .instruct (of .asl .absolute) (.value numerator),
    .setLabel bit,
    .instruct (of .rol .implied) .none,
    .instruct (of .cmp .absolute) (.value denominator),
    .instruct (of .bcc .relative) (.displacement skip),
    .instruct (of .sbc .absolute) (.value denominator),
    .setLabel skip,
    .instruct (of .rol .absolute) (.value numerator),
    .instruct (of .dex .implied) .none,
    .instruct (of .bne .relative) (.displacement bit)]

/-- Divide the byte at `numerator` by the byte at `denominator`, both unsigned: the quotient
replaces the numerator and the remainder is left in A. Uses X. -/
def divide (p : Program) (numerator denominator : UInt16) : List Call :=
  .mint :: .mint ::
    divideLoop (p.nextName "div_bit") (p.mint.nextName "div_skip") numerator denominator

end M6502.Snippet
