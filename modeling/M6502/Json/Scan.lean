import M6502.Json.Cursor
import M6502.Text.Numeral

/-!
# JSON strings, numbers and skipped values

A string is decoded where it is a key, and only checked where it belongs to
a value that nobody asked for. The same goes for numbers.
-/

set_option autoImplicit false

namespace M6502.JsonReader

open Text

def hexEscape : JsonReader Nat := do
  let four := (← get).rest.take 4
  if (String.ofList four).utf8ByteSize < 4 then failAfter 4 .endInString
  else
    match readDigits 16 (bitBound 16) four with
    | none => failAfter 4 .badEscape
    | some n => do
      eat
      eat
      eat
      eat
      return n

def escapedLetter? : Char → Option Char
  | '"' => some '"'
  | '\\' => some '\\'
  | '/' => some '/'
  | 'b' => some '\x08'
  | 'f' => some '\x0c'
  | 'n' => some '\n'
  | 'r' => some '\r'
  | 't' => some '\t'
  | _ => none

def pairMark (c : Char) : JsonReader Unit := do
  discard (expect .endInString .endOfEscape (· == c))

def unicodeEscape : JsonReader Char := do
  let n ← hexEscape
  if 0xDC00 ≤ n ∧ n ≤ 0xDFFF then failHere .loneSurrogate
  else if n < 0xD800 ∨ 0xDBFF < n then return Char.ofNat n
  else do
    pairMark '\\'
    pairMark 'u'
    let m ← hexEscape
    if m < 0xDC00 ∨ 0xDFFF < m then failHere .loneSurrogate
    else return Char.ofNat ((n - 0xD800) * 0x400 + (m - 0xDC00) + 0x10000)

def escapeMark : JsonReader Char :=
  expect .endInString .badEscape fun c => c == 'u' || (escapedLetter? c).isSome

def escape : JsonReader Char := do
  match escapedLetter? (← escapeMark) with
  | some c => return c
  | none => unicodeEscape

def skipEscape : JsonReader Unit := do
  if (escapedLetter? (← escapeMark)).isNone then discard hexEscape

def stringFrom (acc : List Char) : List Char → JsonReader (List Char)
  | [] => failHere .endInString
  | _ :: rounds => do
    match ← peek with
    | none => failHere .endInString
    | some '"' => do eat; return acc.reverse
    | some '\\' => do
      eat
      let c ← escape
      stringFrom (c :: acc) rounds
    | some c => do
      eat
      if c.toNat < 0x20 then failHere .controlCharacter else stringFrom (c :: acc) rounds

def skipStringFrom : List Char → JsonReader Unit
  | [] => failHere .endInString
  | _ :: rounds => do
    match ← peek with
    | none => failHere .endInString
    | some '"' => eat
    | some '\\' => do eat; skipEscape; skipStringFrom rounds
    | some c =>
      if c.toNat < 0x20 then failHere .controlCharacter else do eat; skipStringFrom rounds

def stringBody : JsonReader (List Char) := do
  stringFrom [] (← ahead)

def skipStringBody : JsonReader Unit := do
  skipStringFrom (← ahead)

def digits : JsonReader (List Char) := fun c =>
  let found := c.rest.takeWhile Char.isDigit
  .ok found ⟨c.rest.dropWhile Char.isDigit, c.line, c.column + found.length⟩

def nextIs (p : Char → Bool) : JsonReader Bool := do
  return (← peek).any p

def isExponentMark (c : Char) : Bool :=
  c == 'e' || c == 'E'

def integerDigits (atEnd : JsonFault) : JsonReader (List Char) := do
  match ← expect atEnd .badNumber Char.isDigit with
  | '0' => if ← nextIs Char.isDigit then failAhead .badNumber else return ['0']
  | c => return c :: (← digits)

def fractionDigits (atEnd : JsonFault) : JsonReader (List Char) := do
  eat
  let ds ← digits
  if ds.isEmpty then failAhead (if (← peek).isSome then .badNumber else atEnd)
  else return ds

def pastExponent (n : Nat) : List Char → Nat → Nat → Nat × JsonCursor
  | [], line, column => (n, ⟨[], line, column⟩)
  | c :: rest, line, column =>
    if n < bitBound 31 ∧ c.isDigit then
      pastExponent (10 * n + (digitValue? c).getD 0) rest line (column + 1)
    else (n, ⟨c :: rest, line, column⟩)

def exponentFrom (n : Nat) : JsonReader Nat := fun c =>
  let (m, d) := pastExponent n c.rest c.line c.column
  .ok m d

/-- The exponent behind its mark. Where it `counts`, it is too large as soon as it takes more
than 31 bits. No exponent is too small: one of so many bits makes zero of any number. -/
def exponent (atEnd : JsonFault) (counts : Bool) : JsonReader Int := do
  eat
  let negative ← nextIs (· == '-')
  if negative || (← nextIs (· == '+')) then eat
  let first ← expect atEnd .badNumber Char.isDigit
  let n ← exponentFrom ((digitValue? first).getD 0)
  if counts && !negative && bitBound 31 ≤ n then failHere .numberOutOfRange
  discard digits
  return if negative then -n else n

structure Numeral where
  whole : List Char
  fraction : Option (List Char)
  exponent : Option Int
  deriving DecidableEq, Repr

def numeral (atEnd : JsonFault) (wanted : Bool) : JsonReader Numeral := do
  let whole ← integerDigits atEnd
  let fraction ← if ← nextIs (· == '.') then some <$> fractionDigits atEnd else pure none
  let counts := wanted && (whole ++ fraction.getD []).any (· != '0')
  let power ← if ← nextIs isExponentMark then some <$> exponent atEnd counts else pure none
  return ⟨whole, fraction, power⟩

inductive Frame where
  | list | object
  deriving DecidableEq, Repr

def Frame.close : Frame → Char
  | .list => ']'
  | .object => '}'

def Frame.atEnd : Frame → JsonFault
  | .list => .endInList
  | .object => .endInObject

def Frame.expectedComma : Frame → JsonFault
  | .list => .expectedCommaInList
  | .object => .expectedCommaInObject

def skipKey : JsonReader Unit := do
  match ← peekToken with
  | none => failAhead .endInObject
  | some '"' => do
    eat
    skipStringBody
    match ← peekToken with
    | none => failAhead .endInObject
    | some ':' => eat
    | some _ => failAhead .expectedColon
  | some _ => failAhead .keyNotString

def skipScalar : JsonReader (Option Frame) := do
  match ← peekToken with
  | none => failAhead .endInValue
  | some 'n' => do eat; word ['u', 'l', 'l']; return none
  | some 't' => do eat; word ['r', 'u', 'e']; return none
  | some 'f' => do eat; word ['a', 'l', 's', 'e']; return none
  | some '-' => do eat; discard (numeral .badNumber false); return none
  | some '"' => do eat; skipStringBody; return none
  | some '[' => do eat; return some .list
  | some '{' => do eat; return some .object
  | some c => do
    if c.isDigit then do
      discard (numeral .badNumber false)
      return none
    else failAhead .expectedValue

def skipFrames (isFirst : Bool) : List Frame → List Char → JsonReader Unit
  | [], _ => return
  | frame :: _, [] => failAhead frame.atEnd
  | frame :: frames, _ :: rounds => do
    match ← peekToken with
    | none => failAhead frame.atEnd
    | some c =>
      if c = frame.close then do
        eat
        skipFrames false frames rounds
      else do
        if !isFirst then
          if c = ',' then eat else failAhead frame.expectedComma
        if frame = .object then skipKey
        match ← skipScalar with
        | some inner => skipFrames true (inner :: frame :: frames) rounds
        | none => skipFrames false (frame :: frames) rounds

def skipValue : JsonReader Unit := do
  match ← skipScalar with
  | some frame => skipFrames true [frame] (← ahead)
  | none => return

end M6502.JsonReader
