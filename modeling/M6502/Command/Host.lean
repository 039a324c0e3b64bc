/-!
# Hosts of commands

What a command needs from its surroundings: files that are read and written
whole, and two channels to write to. A command that fails says why, and the
failure beneath it where there is one.
-/

set_option autoImplicit false

namespace M6502

inductive FileFault where
  | missing
  | notDirectory
  | isDirectory
  | nameTooLong
  | noSpace
  | other (message : String)
  deriving DecidableEq, Repr

def FileFault.message : FileFault → String
  | .missing => "No such file or directory (os error 2)"
  | .notDirectory => "Not a directory (os error 20)"
  | .isDirectory => "Is a directory (os error 21)"
  | .nameTooLong => "File name too long (os error 36)"
  | .noSpace => "No space left on device (os error 28)"
  | .other message => message

class Host (m : Type → Type) where
  readFile : String → m (Except FileFault (Array UInt8))
  writeFile : String → Array UInt8 → m (Except FileFault Unit)
  putOut : String → m Unit
  putErr : String → m Unit

structure Failure where
  text : String
  cause : Option String := none
  deriving DecidableEq, Repr

def Failure.report (f : Failure) : String :=
  "Error: " ++ f.text ++ "\n" ++
    match f.cause with
    | none => ""
    | some cause => "\nCaused by:\n    " ++ cause ++ "\n"

abbrev Command (m : Type → Type) := ExceptT Failure m

namespace Command

variable {m : Type → Type} [Monad m] [Host m]

def print (s : String) : Command m Unit :=
  ExceptT.lift (Host.putOut s)

def report (s : String) : Command m Unit :=
  ExceptT.lift (Host.putErr s)

def orFail {ε α : Type} (message : ε → String) : Except ε α → Command m α
  | .ok a => return a
  | .error e => throw ⟨message e, none⟩

def orFailWhile {ε α : Type} (doing : String) (message : ε → String) : Except ε α → Command m α
  | .ok a => return a
  | .error e => throw ⟨doing, some (message e)⟩

def read (path : String) : Command m (Except FileFault (Array UInt8)) :=
  ExceptT.lift (Host.readFile path)

def write (path : String) (bytes : Array UInt8) : Command m (Except FileFault Unit) :=
  ExceptT.lift (Host.writeFile path bytes)

def readBytes (path : String) : Command m (Array UInt8) := do
  orFailWhile ("reading " ++ path) FileFault.message (← read path)

def readText (path : String) : Command m String := do
  match String.fromUTF8? ⟨← readBytes path⟩ with
  | some s => return s
  | none => throw ⟨"reading " ++ path, some "stream did not contain valid UTF-8"⟩

def writeBytes (path : String) (bytes : Array UInt8) : Command m Unit := do
  orFailWhile ("writing " ++ path) FileFault.message (← write path bytes)

def writeText (path : String) (s : String) : Command m Unit :=
  writeBytes path s.toUTF8.data

end Command

end M6502
