import M6502.Command.Grammar
import M6502.Command.Host
import M6502.Computer.Basic
import M6502.Computer.SettingsText
import M6502.Computer.Snapshot
import M6502.Text.Address

/-!
# The runner

Loads a file of bytes into a computer with some RAM, runs it, and shows the
registers and on request how often each address was executed.
-/

set_option autoImplicit false

namespace M6502

open Text

structure ExecuteOptions where
  load : UInt16
  cartridge : Bool
  ram : Nat
  settings : Option String
  limit : Option Nat
  heat : Bool
  input : String
  deriving DecidableEq, Repr

namespace ExecuteOptions

structure Draft where
  load : UInt16 := 0x8000
  cartridge : Bool := false
  ram : Nat := 0x0800
  settings : Option String := none
  limit : Option Nat := none
  heat : Bool := false
  input : Option String := none
  deriving DecidableEq, Repr

def grammar : Grammar Draft where
  title := "mos6502-run"
  about := "Run a raw 6502 binary on the mos6502-rs emulator"
  options := [
    { name := "load"
      letter := some 'l'
      about := "Load address of the image. Ignored with --prg [default: 0x8000]"
      effect := .value "LOAD" fun s d => do
        return { d with load := .ofNat (← readAddress (bitBound 16) s.toList) } },
    { name := "prg"
      about :=
        "Map the image as a cartridge PRG at 0x8000 (a 16 KiB bank is mirrored at 0xC000)"
      effect := .flag fun d => { d with cartridge := true } },
    { name := "ram"
      about := "Bytes of RAM mapped at 0x0000 [default: 0x0800]"
      effect := .value "RAM" fun s d => do
        return { d with ram := ← readAddress (bitBound 16) s.toList } },
    { name := "config"
      about := "JSON file with an EmulatorConfig"
      effect := .value "CONFIG" fun s d => some { d with settings := some s } },
    { name := "max-instructions"
      about := "Override the instruction cap; 0 disables it"
      effect := .value "MAX_INSTRUCTIONS" fun s d => do
        return { d with limit := some (← readNumber 10 (bitBound 64) s.toList) } },
    { name := "heat"
      about := "Print the per-PC execution counts after the run"
      effect := .flag fun d => { d with heat := true } },
    helpSwitch, versionSwitch]
  slots := [⟨"<BINFILE>", "", fun s d => some { d with input := some s }⟩]

def ofWords (words : List String) : Except Stop ExecuteOptions := do
  let d ← grammar.settings {} words
  return {
    load := d.load
    cartridge := d.cartridge
    ram := d.ram
    settings := d.settings
    limit := d.limit
    heat := d.heat
    input := ← required "input" d.input }

def override (o : ExecuteOptions) (s : Settings) : Settings where
  maxInstructions :=
    match o.limit with
    | none => s.maxInstructions
    | some limit => if limit = 0 then none else some limit
  count := s.count || o.heat

def computer (o : ExecuteOptions) (settings : Settings) (image : Array UInt8) : Computer :=
  let bus := if 0 < o.ram then MappedBus.empty.map (.ram o.ram (some .silent)) 0 else .empty
  if o.cartridge then (Computer.withBus (bus.mapCartridge image) settings).reset
  else (Computer.withBus bus settings).load image o.load

end ExecuteOptions

def stopLine : Except Trap StopReason → Option String
  | .ok .halted => none
  | .ok .limit => some "stopped: instruction cap reached\n"
  | .error t => some ("TRAP: " ++ t.message ++ "\n")

def heatRow (addr : UInt16) (h : Heat) : String :=
  hex 4 addr.toNat ++ "  " ++ padLeft 8 (toString h.count) ++ "  " ++ h.encoding.name ++ "\n"

def Computer.heatTable (c : Computer) : String :=
  String.join (c.heatList.map fun h => heatRow h.1 h.2)

namespace ExecuteOptions

open Command

variable {m : Type → Type} [Monad m] [Host m]

def baseSettings (o : ExecuteOptions) : Command m Settings := do
  match o.settings with
  | none => return {}
  | some path =>
    orFailWhile ("parsing " ++ path) JsonError.message (Settings.read (← readText path).toList)

def run (o : ExecuteOptions) : Command m Unit := do
  let settings := o.override (← o.baseSettings)
  let c := o.computer settings (← readBytes o.input)
  let (outcome, c) := c.run
  if let some line := stopLine outcome then report line
  print (c.regs.snapshot.text ++ "\n")
  if o.heat then print c.heatTable

end ExecuteOptions

end M6502
