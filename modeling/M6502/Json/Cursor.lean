/-!
# Reading JSON text

A cursor is the text that is left together with the line and column reached
so far, columns counted in bytes. Faults are reported either where the
cursor stands or some bytes further on, which may be within a character.
-/

set_option autoImplicit false

namespace M6502

inductive JsonFault where
  | endInList | endInObject | endInString | endInValue
  | expectedColon | expectedCommaInList | expectedCommaInObject | expectedWord | expectedValue
  | badEscape | badNumber | numberOutOfRange | controlCharacter | keyNotString
  | loneSurrogate | endOfEscape | trailingComma | trailingCharacters
  | wrongType (found expected : String)
  | wrongValue (found expected : String)
  | duplicateField (name : String)
  deriving DecidableEq, Repr

def JsonFault.message : JsonFault → String
  | .endInList => "EOF while parsing a list"
  | .endInObject => "EOF while parsing an object"
  | .endInString => "EOF while parsing a string"
  | .endInValue => "EOF while parsing a value"
  | .expectedColon => "expected \x60:\x60"
  | .expectedCommaInList => "expected \x60,\x60 or \x60]\x60"
  | .expectedCommaInObject => "expected \x60,\x60 or \x60\x7d\x60"
  | .expectedWord => "expected ident"
  | .expectedValue => "expected value"
  | .badEscape => "invalid escape"
  | .badNumber => "invalid number"
  | .numberOutOfRange => "number out of range"
  | .controlCharacter =>
    "control character (\\u0000-\\u001F) found while parsing a string"
  | .keyNotString => "key must be a string"
  | .loneSurrogate => "lone leading surrogate in hex escape"
  | .endOfEscape => "unexpected end of hex escape"
  | .trailingComma => "trailing comma"
  | .trailingCharacters => "trailing characters"
  | .wrongType found expected => "invalid type: " ++ found ++ ", expected " ++ expected
  | .wrongValue found expected => "invalid value: " ++ found ++ ", expected " ++ expected
  | .duplicateField name => "duplicate field \x60" ++ name ++ "\x60"

structure JsonError where
  fault : JsonFault
  line : Nat
  column : Nat
  deriving DecidableEq, Repr

def JsonError.message (e : JsonError) : String :=
  e.fault.message ++ " at line " ++ toString e.line ++ " column " ++ toString e.column

structure JsonCursor where
  rest : List Char
  line : Nat
  column : Nat
  deriving DecidableEq, Repr

abbrev JsonReader := EStateM JsonError JsonCursor

namespace JsonReader

def start (text : List Char) : JsonCursor :=
  ⟨text, 1, 0⟩

def peek : JsonReader (Option Char) := fun c =>
  .ok c.rest.head? c

def ahead : JsonReader (List Char) := fun c =>
  .ok c.rest c

def eat : JsonReader Unit := fun c =>
  match c.rest with
  | [] => .ok () c
  | '\n' :: rest => .ok () ⟨rest, c.line + 1, 0⟩
  | d :: rest => .ok () ⟨rest, c.line, c.column + d.utf8Size⟩

def positionAfter (line column : Nat) : Nat → List Char → Nat × Nat
  | 0, _ => (line, column)
  | _, [] => (line, column)
  | bytes + 1, c :: rest =>
    if c = '\n' then positionAfter (line + 1) 0 bytes rest
    else if bytes < c.utf8Size then (line, column + bytes + 1)
    else positionAfter line (column + c.utf8Size) (bytes + 1 - c.utf8Size) rest

def failAfter {α : Type} (bytes : Nat) (fault : JsonFault) : JsonReader α := fun c =>
  let (line, column) := positionAfter c.line c.column bytes c.rest
  .error ⟨fault, line, column⟩ c

def failHere {α : Type} (fault : JsonFault) : JsonReader α :=
  failAfter 0 fault

def failAhead {α : Type} (fault : JsonFault) : JsonReader α :=
  failAfter 1 fault

def isGap (c : Char) : Bool :=
  c == ' ' || c == '\n' || c == '\t' || c == '\r'

def pastGap : List Char → Nat → Nat → JsonCursor
  | [], line, column => ⟨[], line, column⟩
  | c :: rest, line, column =>
    if c = '\n' then pastGap rest (line + 1) 0
    else if isGap c then pastGap rest line (column + 1)
    else ⟨c :: rest, line, column⟩

def peekToken : JsonReader (Option Char) := fun c =>
  let d := pastGap c.rest c.line c.column
  .ok d.rest.head? d

def expect (atEnd fault : JsonFault) (accepts : Char → Bool) : JsonReader Char := do
  match ← peek with
  | none => failHere atEnd
  | some c => if accepts c then do eat; return c else failAhead fault

def word : List Char → JsonReader Unit
  | [] => return
  | c :: cs => do
    discard (expect .endInValue .expectedWord (· == c))
    word cs

end JsonReader

end M6502
