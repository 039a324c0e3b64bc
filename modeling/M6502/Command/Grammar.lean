import M6502.Command.Manual
import M6502.Text.Blank

/-!
# Command lines

The words of a command line are options, operands and the name of a
subcommand. An option is a name behind two dashes or a letter behind one; its
value is the next word, or follows an equals sign or the letter at once. Behind
a word of two dashes there are only operands. Each option is given at most once.
-/

set_option autoImplicit false

namespace M6502

open Text

inductive UsageError where
  | unknownOption (word : String)
  | unexpectedOperand (word : String)
  | unexpectedValue (name : String)
  | missingValue (name : String)
  | badValue (name value : String)
  | repeated (name : String)
  | missing (name : String)
  deriving DecidableEq, Repr

def UsageError.message : UsageError → String
  | .unknownOption word => "unknown option " ++ word
  | .unexpectedOperand word => "unexpected operand " ++ word
  | .unexpectedValue name => name ++ " takes no value"
  | .missingValue name => name ++ " needs a value"
  | .badValue name value => "bad value for " ++ name ++ ": " ++ value
  | .repeated name => name ++ " is given twice"
  | .missing name => name ++ " is missing"

inductive Stop where
  | help (page : String)
  | version
  | refused (e : UsageError)
  deriving DecidableEq, Repr

inductive Effect (σ : Type) where
  | flag (set : σ → σ)
  | value (shown : String) (set : String → σ → Option σ)
  | help
  | version

structure Switch (σ : Type) where
  name : String
  letter : Option Char := none
  about : String
  needed : Bool := false
  effect : Effect σ

structure Slot (σ : Type) where
  label : String
  about : String
  set : String → σ → Option σ

structure Grammar (σ : Type) where
  title : String
  about : String
  options : List (Switch σ)
  slots : List (Slot σ) := []
  commands : List Explained := []

structure Progress (σ : Type) where
  settings : σ
  given : List String
  slots : List (Slot σ)
  fault : Option UsageError := none

structure Subcommand where
  name : String
  words : List String
  deriving DecidableEq, Repr

inductive Word where
  | escape
  | long (name : String) (value : Option String)
  | short (letters : List Char)
  | plain
  deriving DecidableEq, Repr

def Word.of (w : String) : Word :=
  match w.toList with
  | ['-', '-'] => .escape
  | '-' :: '-' :: cs =>
    match splitAtChar? '=' cs with
    | some (name, value) => .long (String.ofList name) (some (String.ofList value))
    | none => .long (String.ofList cs) none
  | '-' :: c :: cs => .short (c :: cs)
  | _ => .plain

variable {σ : Type}

namespace Switch

def usage (o : Switch σ) : String :=
  match o.effect with
  | .value shown _ => "--" ++ o.name ++ " <" ++ shown ++ ">"
  | _ => "--" ++ o.name

def explained (o : Switch σ) : Explained where
  label :=
    (match o.letter with
    | some c => String.ofList ['-', c, ',', ' ']
    | none => "    ") ++ o.usage
  about := o.about

def isOptional (o : Switch σ) : Bool :=
  match o.effect with
  | .help | .version => false
  | _ => !o.needed

end Switch

def Grammar.manual (g : Grammar σ) : Manual where
  title := g.title
  about := g.about
  hasOptions := g.options.any (·.isOptional)
  needed := (g.options.filter (·.needed)).map (·.usage)
  commands := g.commands
  operands := g.slots.map fun slot => ⟨slot.label, slot.about⟩
  options := g.options.map (·.explained)

namespace Progress

def refuse {α : Type} (e : UsageError) : Except Stop α :=
  .error (.refused e)

def note (p : Progress σ) (o : Switch σ) : Except Stop (Progress σ) :=
  if o.name ∈ p.given then refuse (.repeated o.name)
  else .ok { p with given := o.name :: p.given }

def give (p : Progress σ) (o : Switch σ) (value : String) : Except Stop (Progress σ) := do
  let p ← p.note o
  match o.effect with
  | .value _ set =>
    match set value p.settings with
    | some settings => .ok { p with settings := settings }
    | none => refuse (.badValue o.name value)
  | _ => refuse (.unexpectedValue o.name)

def checkFault (p : Progress σ) : Except Stop Unit :=
  match p.fault with
  | some e => refuse e
  | none => .ok ()

def place (p : Progress σ) (word : String) : Except Stop (Progress σ) :=
  match p.slots with
  | [] => refuse (.unexpectedOperand word)
  | slot :: slots =>
    match slot.set word p.settings with
    | some settings => .ok { p with settings := settings, slots := slots }
    | none => refuse (.badValue slot.label word)

end Progress

namespace Grammar

open Progress

def readLetters (g : Grammar σ) (p : Progress σ) :
    List Char → Except Stop (Progress σ × Option (Switch σ))
  | [] => .ok (p, none)
  | c :: cs =>
    match g.options.find? (·.letter == some c) with
    | none => refuse (.unknownOption (String.ofList ['-', c]))
    | some o =>
      match o.effect, cs with
      | .help, _ => .error (.help g.manual.page)
      | .version, _ => .error .version
      | .flag set, cs => do
        let p ← p.note o
        g.readLetters { p with settings := set p.settings } cs
      | .value _ _, [] => .ok (p, some o)
      | .value _ _, '=' :: value => do return (← p.give o (String.ofList value), none)
      | .value _ _, value => do return (← p.give o (String.ofList value), none)

def readName (g : Grammar σ) (p : Progress σ) (name : String) (value : Option String) :
    Except Stop (Progress σ × Option (Switch σ)) :=
  match g.options.find? (·.name == name) with
  | none => refuse (.unknownOption ("--" ++ name))
  | some o =>
    match o.effect, value with
    | .value _ _, none => .ok (p, some o)
    | .flag set, none => do
      let p ← p.note o
      return ({ p with settings := set p.settings }, none)
    | .help, none => .error (.help g.manual.page)
    | .version, none => .error .version
    | _, some value => do return (← p.give o value, none)

/-- Read words up to the name of a subcommand; an option may wait for the first word. A fault of
such a word is not reported before the next word is seen to be no subcommand. -/
def readWords (g : Grammar σ) (p : Progress σ) :
    Option (Switch σ) → List String → Except Stop (Progress σ × Option Subcommand)
  | none, [] => .ok (p, none)
  | some o, [] => refuse (.missingValue o.name)
  | some o, w :: ws =>
    if Word.of w = .plain then
      match p.give o w with
      | .error (.refused e) => g.readWords { p with fault := some e } none ws
      | .error reason => .error reason
      | .ok p => g.readWords p none ws
    else refuse (.missingValue o.name)
  | none, w :: ws => do
    if g.commands.any (·.label == w) then .ok (p, some ⟨w, ws⟩)
    else
      p.checkFault
      match Word.of w with
      | .escape => do return (← ws.foldlM place p, none)
      | .long name value => do
        let (p, waiting) ← g.readName p name value
        g.readWords p waiting ws
      | .short letters => do
        let (p, waiting) ← g.readLetters p letters
        g.readWords p waiting ws
      | .plain => do g.readWords (← p.place w) none ws

def parse {γ : Type} (g : Grammar σ) (initial : σ) (read : Subcommand → Except Stop γ)
    (words : List String) : Except Stop (σ × Option γ) := do
  let (p, command) ← g.readWords ⟨initial, [], g.slots, none⟩ none words
  let command ← command.mapM read
  p.checkFault
  return (p.settings, command)

def settings (g : Grammar σ) (initial : σ) (words : List String) : Except Stop σ := do
  return (← g.parse initial (fun _ => .ok ()) words).1

end Grammar

def required {α : Type} (name : String) : Option α → Except Stop α
  | some a => .ok a
  | none => .error (.refused (.missing name))

def helpSwitch : Switch σ where
  name := "help"
  letter := some 'h'
  about := "Print help"
  effect := .help

def versionSwitch : Switch σ where
  name := "version"
  letter := some 'V'
  about := "Print version"
  effect := .version

end M6502
