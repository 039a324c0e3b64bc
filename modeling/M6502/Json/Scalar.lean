import M6502.Json.Scan
import M6502.Text.Hidden
import M6502.Text.Shortest

/-!
# Typed JSON values

Readers that ask for a value of one type. A value of another type is
reported by what it is and what was expected, after it has been read as far
as its kind takes: scalars whole, lists and objects not at all.
-/

set_option autoImplicit false

namespace M6502

open Text

inductive JsonAmount where
  | natural (n : Nat)
  | negative (n : Nat)
  | inexact (minus : Bool) (x : Binary)
  deriving DecidableEq, Repr

namespace JsonAmount

def describe : JsonAmount → String
  | .natural n => "integer \x60" ++ toString n ++ "\x60"
  | .negative n => "integer \x60-" ++ toString n ++ "\x60"
  | .inexact minus x =>
    "floating point \x60" ++ (if minus then "-" else "") ++ x.shortest.text ++ "\x60"

end JsonAmount

namespace JsonReader

def significand (acc : Nat) : List Char → Nat × Nat
  | [] => (acc, 0)
  | c :: digits =>
    let n := 10 * acc + (digitValue? c).getD 0
    if n < bitBound 64 then significand n digits else (acc, digits.length + 1)

def Numeral.decimal (n : Numeral) : Decimal :=
  let fraction := n.fraction.getD []
  let (whole, left) := significand 0 n.whole
  let (digits, unused) := significand whole fraction
  ⟨digits, left + unused - fraction.length + n.exponent.getD 0⟩

def Numeral.amount? (minus : Bool) (n : Numeral) : Option JsonAmount :=
  let d := n.decimal
  let exact := n.fraction.isNone && n.exponent.isNone && d.power == 0
  if exact && !minus then some (.natural d.digits)
  else if exact && 0 < d.digits && d.digits ≤ bitBound 63 then some (.negative d.digits)
  else (Binary.ofDecimal? d).map (.inexact minus)

def amount (minus : Bool) : JsonReader JsonAmount := do
  match (← numeral .endInValue true).amount? minus with
  | some a => return a
  | none => failHere .numberOutOfRange

def reported (c : Char) : List Char :=
  if c = '"' ∨ c = '\\' then ['\\', c]
  else if c = '\n' then ['\\', 'n']
  else if c = '\r' then ['\\', 'r']
  else if c = '\t' then ['\\', 't']
  else if c.toNat = 0 then ['\\', '0']
  else if isHidden c then
    '\\' :: 'u' :: '{' :: hexDigits 1 c.toNat ++ ['}']
  else [c]

def found (c : Char) : JsonReader String := do
  match c with
  | 'n' => do eat; word ['u', 'l', 'l']; return "null"
  | 't' => do eat; word ['r', 'u', 'e']; return "boolean \x60true\x60"
  | 'f' => do eat; word ['a', 'l', 's', 'e']; return "boolean \x60false\x60"
  | '-' => do eat; return (← amount true).describe
  | '"' => do
    eat
    return "string \"" ++ String.ofList ((← stringBody).flatMap reported) ++ "\""
  | '[' => return "sequence"
  | '{' => return "map"
  | c => if c.isDigit then return (← amount false).describe else failAhead .expectedValue

def refuse {α : Type} (c : Char) (expected : String) : JsonReader α := do
  failHere (.wrongType (← found c) expected)

def valueStart : JsonReader Char := do
  match ← peekToken with
  | none => failAhead .endInValue
  | some c => return c

def boolean : JsonReader Bool := do
  match ← valueStart with
  | 't' => do eat; word ['r', 'u', 'e']; return true
  | 'f' => do eat; word ['a', 'l', 's', 'e']; return false
  | c => refuse c "a boolean"

def natural : JsonReader Nat := do
  let c ← valueStart
  if c = '-' ∨ c.isDigit then
    if c = '-' then eat
    let a ← amount (c = '-')
    match a with
    | .natural n => return n
    | .negative _ => failHere (.wrongValue a.describe "u64")
    | .inexact _ _ => failHere (.wrongType a.describe "u64")
  else refuse c "u64"

def optional {α : Type} (value : JsonReader α) : JsonReader (Option α) := do
  match ← peekToken with
  | some 'n' => do eat; word ['u', 'l', 'l']; return none
  | _ => some <$> value

def finish : JsonReader Unit := do
  if (← peekToken).isSome then failAhead .trailingCharacters

end JsonReader

end M6502
