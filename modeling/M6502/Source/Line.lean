import M6502.Program.Call
import M6502.Source.Literal

/-!
# Lines of source text

A line holds a directive, or a label and an instruction, either of which
may be missing; a semicolon starts a comment. Reading a line does not look
at the program: it answers the calls to make, in order, and where the line
makes no sense, the error that stops the reading.
-/

set_option autoImplicit false

namespace M6502

open Text

abbrev Order := Except ProgramError Call

namespace Source

def statement (line : List Char) : List Char :=
  trim (line.takeWhile (· != ';'))

def operand? (e : Encoding) (text : List Char) : Option Operand :=
  if text.isEmpty then some .none
  else match Literal.read? (Literal.core text) with
    | none => none
    | some (.number n) => some (.value (UInt16.ofNat (if e.size = 2 then n % 256 else n % 65536)))
    | some (.name s) =>
      if e.mode = .relative then some (.displacement (String.ofList s))
      else some (.label (String.ofList s))

def instruction (number : Nat) (s : List Char) : Order :=
  let (mnemonic, rest) := splitAtBlank s
  let text := lower (rest.filter (!isBlank ·))
  let refusal : Order := .error (.noMatchingInstruction number (String.ofList s))
  match Encoding.select? (lower mnemonic) text with
  | none => refusal
  | some e =>
    match operand? e text with
    | none => refusal
    | some operand => .ok (.instruct e operand)

def arguments (s : List Char) : List (List Char) :=
  ((splitOn ',' s).map fun arg => lower (trim arg)).filter (!·.isEmpty)

def directive (number : Nat) (s : List Char) : List Order :=
  let refusal : Order := .error (.unknownDirective number (String.ofList s))
  let (name, rest) := splitAtBlank s
  let args := arguments rest
  match lower name with
  | ['.', 'o', 'r', 'g'] =>
    match args with
    | [arg] =>
      match Literal.read? arg with
      | some (.number n) => [.ok (.setOrigin (UInt16.ofNat (n % 65536)))]
      | _ => [refusal]
    | _ => [refusal]
  | ['.', 'b', 'y', 't', 'e'] =>
    args.map fun arg =>
      match Literal.read? arg with
      | some (.number n) => .ok (.put (Literal.signed n))
      | _ => refusal
  | ['.', 'w', 'o', 'r', 'd'] =>
    args.map fun arg =>
      match Literal.read? arg with
      | some (.number n) => .ok (.putWord (UInt16.ofNat (n % 65536)))
      | some (.name s) => .ok (.putLabel (String.ofList s))
      | none => refusal
  | _ => [refusal]

def splitLabel (s : List Char) : Option String × List Char :=
  match splitAtChar? ':' s with
  | some (head, rest) =>
    let head := trim head
    if isIdent head then (some (String.ofList (lower head)), trim rest) else (none, s)
  | none => (none, s)

def labelled (number : Nat) (s : List Char) : List Order :=
  let (label, rest) := splitLabel s
  let definition : List Order := label.toList.map fun name => .ok (.setLabel name)
  if rest.isEmpty then definition else definition ++ [instruction number rest]

def readLine (number : Nat) (line : List Char) : List Order :=
  match statement line with
  | [] => []
  | '.' :: s => directive number ('.' :: s)
  | s => labelled number s

def readFrom (first : Nat) : List (List Char) → List Order
  | [] => []
  | line :: lines => readLine first line ++ readFrom (first + 1) lines

end Source

def Program.follow (p : Program) : List Order → Except ProgramError Program
  | [] => .ok p
  | .error e :: _ => .error e
  | .ok c :: orders =>
    match c.apply p with
    | .ok q => q.follow orders
    | .error e => .error e

theorem Program.follow_append (p : Program) (xs ys : List Order) :
    p.follow (xs ++ ys) = (p.follow xs).bind fun q => q.follow ys := by
  induction xs generalizing p with
  | nil => rfl
  | cons x xs ih =>
    cases x with
    | error e => rfl
    | ok c =>
      simp only [List.cons_append, follow]
      cases c.apply p with
      | ok q => exact ih q
      | error e => rfl

namespace Source

def parseLines (size : Nat) (lines : List (List Char)) : Except ProgramError Program :=
  (Program.empty size).follow (readFrom 1 lines)

def parse (size : Nat) (text : List Char) : Except ProgramError Program :=
  parseLines size (Text.lines text)

end Source

end M6502
