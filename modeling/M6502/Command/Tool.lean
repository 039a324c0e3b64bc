import M6502.Command.Assemble
import M6502.Command.Disassemble
import M6502.Command.Execute

/-!
# Tools

The assembler, the disassembler and the runner as commands of a host, with
the exit code that each of them ends with.
-/

set_option autoImplicit false

namespace M6502

inductive Tool where
  | asm | disasm | run
  deriving DecidableEq, Repr

namespace Tool

def name : Tool → String
  | .asm => "asm"
  | .disasm => "disasm"
  | .run => "run"

def all : List Tool := [.asm, .disasm, .run]

def ofName? (s : String) : Option Tool :=
  all.find? (·.name == s)

def manual : Tool → Manual
  | .asm => AssembleOptions.grammar.manual
  | .disasm => DisassembleOptions.grammar.manual
  | .run => ExecuteOptions.grammar.manual

def version : Tool → String
  | .asm | .disasm => "mos6502-tools 0.1.0"
  | .run => "mos6502-rs 0.1.0"

def refusal (t : Tool) (e : UsageError) : String :=
  "error: " ++ e.message ++ "\n\nUsage: " ++ t.manual.usage ++
    "\n\nFor more information, try '--help'.\n"

variable {m : Type → Type} [Monad m] [Host m]

def command (t : Tool) (words : List String) : Except Stop (Command m Unit) :=
  match t with
  | .asm => AssembleOptions.run <$> AssembleOptions.ofWords words
  | .disasm => DisassembleOptions.run <$> DisassembleOptions.ofWords words
  | .run => ExecuteOptions.run <$> ExecuteOptions.ofWords words

def start (t : Tool) (words : List String) : m Nat := do
  match t.command words with
  | .error (.help page) =>
    Host.putOut page
    return 0
  | .error .version =>
    Host.putOut (t.version ++ "\n")
    return 0
  | .error (.refused e) =>
    Host.putErr (t.refusal e)
    return 2
  | .ok act =>
    match ← ExceptT.run act with
    | .ok _ => return 0
    | .error f =>
      Host.putErr f.report
      return 1

end Tool

end M6502
