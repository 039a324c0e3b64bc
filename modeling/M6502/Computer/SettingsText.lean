import M6502.Computer.Settings
import M6502.Json.Scalar

/-!
# Settings as text

Settings are written in JSON: an object whose fields may be left out, each
at most once and next to fields that are of no interest, or a list of the
values, which may end early.
-/

set_option autoImplicit false

namespace M6502

namespace Settings

inductive Key where
  | maxInstructions | count
  deriving DecidableEq, Repr

namespace Key

def name : Key → String
  | .maxInstructions => "max_instructions"
  | .count => "count"

def ofName? (s : List Char) : Option Key :=
  [Key.maxInstructions, Key.count].find? (·.name.toList == s)

end Key

open JsonReader

def readField (s : Settings) : Key → JsonReader Settings
  | .maxInstructions => do return { s with maxInstructions := ← optional natural }
  | .count => do return { s with count := ← boolean }

def moreElements (isFirst : Bool) : JsonReader Bool := do
  match ← peekToken with
  | none => failAhead .endInList
  | some ']' => return false
  | some ',' =>
    if isFirst then return true
    eat
    match ← peekToken with
    | none => failAhead .endInValue
    | some ']' => failAhead .trailingComma
    | some _ => return true
  | some _ => if isFirst then return true else failAhead .expectedCommaInList

def closeList : JsonReader Unit := do
  match ← peekToken with
  | none => failAhead .endInList
  | some ']' => eat
  | some ',' =>
    eat
    if (← peekToken) = some ']' then failAhead .trailingComma else failAhead .trailingCharacters
  | some _ => failAhead .trailingCharacters

def readElements (isFirst : Bool) (s : Settings) : List Key → JsonReader Settings
  | [] => return s
  | key :: keys => do
    if ← moreElements isFirst then readElements false (← s.readField key) keys else return s

def readList : JsonReader Settings := do
  let s ← readElements true {} [.maxInstructions, .count]
  closeList
  return s

def openKey : JsonReader Unit := do
  match ← peekToken with
  | none => failAhead .endInValue
  | some '"' => eat
  | some '}' => failAhead .trailingComma
  | some _ => failAhead .keyNotString

def moreFields (isFirst : Bool) : JsonReader Bool := do
  match ← peekToken with
  | none => failAhead .endInObject
  | some '}' => do eat; return false
  | some c =>
    if !isFirst then
      if c = ',' then eat else failAhead .expectedCommaInObject
    openKey
    return true

def colon : JsonReader Unit := do
  match ← peekToken with
  | none => failAhead .endInObject
  | some ':' => eat
  | some _ => failAhead .expectedColon

def repeated {α : Type} (key : Key) : JsonReader α := do
  if (← peekToken) = some '}' then eat
  failHere (.duplicateField key.name)

def readFields (isFirst : Bool) (seen : List Key) (s : Settings) :
    List Char → JsonReader Settings
  | [] => failAhead .endInObject
  | _ :: rounds => do
    if ← moreFields isFirst then
      match Key.ofName? (← stringBody) with
      | none =>
        colon
        skipValue
        readFields false seen s rounds
      | some key =>
        if key ∈ seen then repeated key
        else
          colon
          readFields false (key :: seen) (← s.readField key) rounds
    else return s

def document : JsonReader Settings := do
  let s ← match ← valueStart with
    | '[' => do eat; readList
    | '{' => do eat; readFields true [] {} (← ahead)
    | c => refuse c "struct EmulatorConfig"
  finish
  return s

def read (text : List Char) : Except JsonError Settings :=
  match document (start text) with
  | .ok s _ => .ok s
  | .error e _ => .error e

end Settings

end M6502
