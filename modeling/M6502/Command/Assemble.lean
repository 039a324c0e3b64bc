import M6502.Command.Grammar
import M6502.Command.Host
import M6502.Json.Value
import M6502.Program.Layout
import M6502.Program.Listing
import M6502.Source.Line
import M6502.Text.Numeral

/-!
# The assembler

From a source file to a file of bytes, and on request a listing on standard
output and a file with the labels.
-/

set_option autoImplicit false

namespace M6502

open Text

structure AssembleOptions where
  input : String
  output : String
  size : Nat
  clamp : Bool
  listing : Bool
  labels : Option String
  deriving DecidableEq, Repr

namespace AssembleOptions

structure Draft where
  input : Option String := none
  output : Option String := none
  size : Nat := Program.defaultSize
  clamp : Bool := true
  listing : Bool := false
  labels : Option String := none
  deriving DecidableEq, Repr

def path? (s : String) : Option String :=
  if s.isEmpty then none else some s

def grammar : Grammar Draft where
  title := "mos6502-asm"
  about := "6502 assembler: text source to flat binary"
  options := [
    { name := "input"
      letter := some 'i'
      about := "Input assembly file (one instruction, label or directive per line)"
      needed := true
      effect := .value "INPUT" fun s d => do return { d with input := some (← path? s) } },
    { name := "output"
      letter := some 'o'
      about := "Output binary file"
      needed := true
      effect := .value "OUTPUT" fun s d => do return { d with output := some (← path? s) } },
    { name := "size"
      about := "Buffer capacity in bytes [default: " ++ toString Program.defaultSize ++ "]"
      effect := .value "SIZE" fun s d => do
        return { d with size := ← readNumber 10 (bitBound 64) s.toList } },
    { name := "no-clamp"
      about := "Keep the whole buffer instead of cutting it at the last write"
      effect := .flag fun d => { d with clamp := false } },
    { name := "listing"
      about := "Print the parsed program back as text"
      effect := .flag fun d => { d with listing := true } },
    { name := "labels-out"
      about := "Export labels to JSON (Vec<\x7b addr, name \x7d>)"
      effect := .value "FILE" fun s d => do return { d with labels := some (← path? s) } },
    helpSwitch, versionSwitch]

def ofWords (words : List String) : Except Stop AssembleOptions := do
  let d ← grammar.settings {} words
  return {
    input := ← required "input" d.input
    output := ← required "output" d.output
    size := d.size
    clamp := d.clamp
    listing := d.listing
    labels := d.labels }

end AssembleOptions

namespace Program

def listingText (p : Program) : String :=
  String.join (p.items.toList.map fun item => "    " ++ item.text ++ "\n")

def labelsJson (p : Program) : JsonValue :=
  .array (p.sortedLabels.map fun l =>
    .object [("addr", .number l.2.toNat), ("name", .string l.1)])

def summary (p : Program) (bytes : Array UInt8) : String :=
  toString bytes.size ++ " bytes, " ++ toString p.labels.size ++ " labels, origin " ++
    markedHex 4 p.origin.toNat ++ "\n"

end Program

namespace AssembleOptions

open Command

variable {m : Type → Type} [Monad m] [Host m]

def source (o : AssembleOptions) : Command m Program := do
  let text ← readText o.input
  orFailWhile ("assembling " ++ o.input) ProgramError.message (Source.parse o.size text.toList)

def run (o : AssembleOptions) : Command m Unit := do
  let p ← o.source
  if o.listing then print p.listingText
  let bytes ← orFail ProgramError.message (p.build o.clamp)
  writeBytes o.output bytes
  if let some path := o.labels then
    orFail FileFault.message (← write path p.labelsJson.text.toUTF8.data)
  report (p.summary bytes)

end AssembleOptions

end M6502
