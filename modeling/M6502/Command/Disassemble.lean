import M6502.Command.Grammar
import M6502.Command.Host
import M6502.Image.Cartridge
import M6502.Image.Listing
import M6502.Json.Value
import M6502.Text.Address

/-!
# The disassembler

Shows what a plain file or a cartridge file puts into memory: its segments,
the vectors at the end of the address space, or a range of addresses line
by line.
-/

set_option autoImplicit false

namespace M6502

open Text

inductive ListingFormat where
  | text | json
  deriving DecidableEq, Repr

def ListingFormat.ofName? : String → Option ListingFormat
  | "text" => some .text
  | "json" => some .json
  | _ => none

structure RangeOptions where
  start : UInt16
  stop : Nat
  showBytes : Bool
  format : ListingFormat
  output : Option String
  deriving DecidableEq, Repr

namespace RangeOptions

structure Draft where
  start : Option UInt16 := none
  stop : Option Nat := none
  showBytes : Bool := false
  format : ListingFormat := .text
  output : Option String := none
  deriving DecidableEq, Repr

def grammar : Grammar Draft where
  title := "mos6502-disasm <BINFILE> range"
  about := "Disassemble a range [start, end)"
  options := [
    { name := "show-bytes"
      about := "Show instruction bytes"
      effect := .flag fun d => { d with showBytes := true } },
    { name := "format"
      about := "[default: text] [possible values: text, json]"
      effect := .value "FORMAT" fun s d => do
        return { d with format := ← ListingFormat.ofName? s } },
    { name := "out"
      about := "Write output to file instead of stdout"
      effect := .value "FILE" fun s d => some { d with output := some s } },
    helpSwitch]
  slots := [
    ⟨"<START>", "Start address (hex with 0x or $, or decimal)", fun s d => do
      return { d with start := some (.ofNat (← readLooseAddress (bitBound 16) s.toList)) }⟩,
    ⟨"<END>", "End address, exclusive", fun s d => do
      return { d with stop := some (← readLooseAddress (bitBound 32) s.toList) }⟩]

def ofWords (words : List String) : Except Stop RangeOptions := do
  let d ← grammar.settings {} words
  return {
    start := ← required "start" d.start
    stop := ← required "end" d.stop
    showBytes := d.showBytes
    format := d.format
    output := d.output }

end RangeOptions

inductive View where
  | sections
  | vectors
  | range (options : RangeOptions)
  deriving DecidableEq, Repr

namespace View

def sectionsGrammar : Grammar Unit where
  title := "mos6502-disasm <BINFILE> sections"
  about := "List loaded segments"
  options := [helpSwitch]

def vectorsGrammar : Grammar Unit where
  title := "mos6502-disasm <BINFILE> vectors"
  about := "Print the NMI, RESET and IRQ vectors"
  options := [helpSwitch]

def helpManual : Manual where
  title := "mos6502-disasm <BINFILE> help"
  about := "Print this message or the help of the given subcommand(s)"
  hasOptions := false
  needed := []
  commands := []
  operands := [⟨"[COMMAND]...", "Print help for the subcommand(s)"⟩]
  options := []

def manuals : List (String × Manual) :=
  [("sections", sectionsGrammar.manual), ("vectors", vectorsGrammar.manual),
    ("range", RangeOptions.grammar.manual), ("help", helpManual)]

def explain (whole : Manual) : List String → Stop
  | [] => .help whole.page
  | name :: words =>
    match manuals.find? (·.1 == name), words with
    | none, _ => .refused (.unexpectedOperand name)
    | some _, word :: _ => .refused (.unexpectedOperand word)
    | some (_, m), [] => .help m.page

def ofCommand (whole : Manual) (c : Subcommand) : Except Stop View := do
  match c.name with
  | "sections" =>
    sectionsGrammar.settings () c.words
    return .sections
  | "vectors" =>
    vectorsGrammar.settings () c.words
    return .vectors
  | "range" => return .range (← RangeOptions.ofWords c.words)
  | _ => .error (explain whole c.words)

end View

structure DisassembleOptions where
  base : UInt16
  skip : Nat
  limit : Option Nat
  cartridge : Bool
  input : String
  view : View
  deriving DecidableEq, Repr

namespace DisassembleOptions

structure Draft where
  base : UInt16 := 0x8000
  skip : Nat := 0
  limit : Option Nat := none
  cartridge : Bool := false
  input : Option String := none
  deriving DecidableEq, Repr

def grammar : Grammar Draft where
  title := "mos6502-disasm"
  about := "6502 disassembler CLI"
  options := [
    { name := "base"
      about := "Load address for the binary in CPU address space [default: 0x8000]"
      effect := .value "BASE" fun s d => do
        return { d with base := .ofNat (← readLooseAddress (bitBound 16) s.toList) } },
    { name := "skip"
      about := "Skip N bytes at start of file before loading [default: 0]"
      effect := .value "SKIP" fun s d => do
        return { d with skip := ← readNumber 10 (bitBound 64) s.toList } },
    { name := "len"
      about := "Limit bytes loaded (default: to EOF after --skip)"
      effect := .value "LEN" fun s d => do
        return { d with limit := some (← readNumber 10 (bitBound 64) s.toList) } },
    { name := "ines"
      about := "Treat the input as an iNES cartridge and map its PRG ROM"
      effect := .flag fun d => { d with cartridge := true } },
    helpSwitch, versionSwitch]
  slots := [⟨"<BINFILE>", "Input binary path", fun s d => some { d with input := some s }⟩]
  commands := View.manuals.map fun (name, m) => ⟨name, m.about⟩

def ofWords (words : List String) : Except Stop DisassembleOptions := do
  let (d, view) ← grammar.parse {} (View.ofCommand grammar.manual) words
  return {
    base := d.base
    skip := d.skip
    limit := d.limit
    cartridge := d.cartridge
    input := ← required "input" d.input
    view := ← required "command" view }

end DisassembleOptions

def ImageLine.write (showBytes : Bool) (l : ImageLine) : String :=
  let addr := hex 4 l.addr.toNat ++ ": "
  if showBytes then
    addr ++ padRight 9 (String.intercalate " " (l.bytes.map fun b => hex 2 b.toNat)) ++ " " ++
      l.text ++ "\n"
  else addr ++ l.text ++ "\n"

def ImageLine.json (l : ImageLine) : JsonValue :=
  .object [
    ("addr", .number l.addr.toNat),
    ("bytes", .array (l.bytes.map fun b => .number b.toNat)),
    ("text", .string l.text)]

def RangeOptions.write (o : RangeOptions) (lines : List ImageLine) : String :=
  match o.format with
  | .json => (JsonValue.array (lines.map ImageLine.json)).text
  | .text => String.join (lines.map (·.write o.showBytes))

def Segment.row (s : Segment) : String :=
  padRight 12 s.name ++ " " ++ markedHex 4 s.base.toNat ++ "   " ++ markedHex 5 s.stop ++ "  " ++
    padRight 6 s.kind ++ "\n"

def Image.sectionTable (img : Image) : String :=
  "name         start    end      kind  \n" ++ String.join (img.segments.map Segment.row)

def Image.vectorRow (img : Image) (name : String) (addr : UInt16) : String :=
  padRight 6 name ++ " " ++
    (match img.readWord? addr with
    | some v => markedHex 4 v.toNat
    | none => "<unmapped>") ++ "\n"

def Image.vectorTable (img : Image) : String :=
  img.vectorRow "nmi" 0xFFFA ++ img.vectorRow "reset" 0xFFFC ++ img.vectorRow "irq" 0xFFFE

def CartridgeHeader.summary (h : CartridgeHeader) : String :=
  "iNES: " ++ toString h.programBanks.toNat ++ " PRG bank(s), " ++
    toString h.pictureBanks.toNat ++ " CHR bank(s), mapper " ++ toString h.mapper.toNat ++ "\n"

namespace DisassembleOptions

open Command

variable {m : Type → Type} [Monad m] [Host m]

def image (o : DisassembleOptions) : Command m Image := do
  if o.cartridge then
    let c ← orFail ImageError.message (Cartridge.ofFile (← readBytes o.input))
    report c.header.summary
    return c.image
  else
    let file ← orFail FileFault.message (← read o.input)
    orFail ImageError.message (Image.ofFile file o.base o.skip o.limit)

def showRange (img : Image) (o : RangeOptions) : Command m Unit := do
  if o.stop < o.start.toNat then throw ⟨"end must be >= start", none⟩
  let text := o.write (img.listing o.start o.stop)
  match o.output with
  | some path => writeText path text
  | none => print text

def run (o : DisassembleOptions) : Command m Unit := do
  let img ← o.image
  match o.view with
  | .sections => print img.sectionTable
  | .vectors => print img.vectorTable
  | .range r => showRange img r

end DisassembleOptions

end M6502
