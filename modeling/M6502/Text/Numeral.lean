/-!
# Numerals

Numbers as they are written: hexadecimal output of a least width, and the
reader of unsigned numbers in a radix. The reader takes an optional plus
sign, then one or more digits of either case, and refuses a number that
does not stay below its bound.
-/

set_option autoImplicit false

namespace M6502.Text

def bitBound (bits : Nat) : Nat :=
  Nat.pow 2 bits

def hexDigits (width n : Nat) : List Char :=
  (Nat.toDigits 16 n).leftpad width '0'

def hex (width n : Nat) : String :=
  String.ofList (hexDigits width n)

def markedHex (width n : Nat) : String :=
  "0x" ++ hex width n

def padRight (width : Nat) (s : String) : String :=
  String.ofList (s.toList.rightpad width ' ')

def padLeft (width : Nat) (s : String) : String :=
  String.ofList (s.toList.leftpad width ' ')

def digitValue? (c : Char) : Option Nat :=
  if '0' ≤ c ∧ c ≤ '9' then some (c.toNat - 48)
  else if 'a' ≤ c ∧ c ≤ 'f' then some (c.toNat - 87)
  else if 'A' ≤ c ∧ c ≤ 'F' then some (c.toNat - 55)
  else none

def isHexDigit (c : Char) : Bool :=
  (digitValue? c).isSome

def continueNumber (radix bound acc : Nat) : List Char → Option Nat
  | [] => some acc
  | c :: digits =>
    match digitValue? c with
    | none => none
    | some d =>
      let n := acc * radix + d
      if d < radix ∧ n < bound then continueNumber radix bound n digits else none

def readDigits (radix bound : Nat) : List Char → Option Nat
  | [] => none
  | digits => continueNumber radix bound 0 digits

def readNumber (radix bound : Nat) (s : List Char) : Option Nat :=
  match s with
  | '+' :: digits => readDigits radix bound digits
  | digits => readDigits radix bound digits

theorem continueNumber_lt {radix bound acc n : Nat} {digits : List Char} (hd : digits ≠ [])
    (h : continueNumber radix bound acc digits = some n) : n < bound := by
  induction digits generalizing acc with
  | nil => contradiction
  | cons c digits ih =>
    simp only [continueNumber] at h
    split at h
    · contradiction
    · split at h
      · rename_i d _ hn
        cases digits with
        | nil =>
          cases h
          exact hn.2
        | cons c digits => exact ih (by simp) h
      · contradiction

theorem readDigits_lt {radix bound n : Nat} {s : List Char}
    (h : readDigits radix bound s = some n) : n < bound := by
  cases s with
  | nil => contradiction
  | cons c s => exact continueNumber_lt (by simp) h

theorem readNumber_lt {radix bound n : Nat} {s : List Char}
    (h : readNumber radix bound s = some n) : n < bound := by
  simp only [readNumber] at h
  split at h <;> exact readDigits_lt h

end M6502.Text
