import M6502.Command.Tool

/-!
# Command line

Runs the tool that the first word names on the files of the system.
-/

set_option autoImplicit false

namespace M6502

def FileFault.ofError : IO.Error → FileFault
  | .noFileOrDirectory _ _ _ => .missing
  | .inappropriateType _ code _ => if code = 20 then .notDirectory else .isDirectory
  | .invalidArgument _ 36 _ => .nameTooLong
  | .permissionDenied _ code details =>
    .other (details ++ " (os error " ++ toString code ++ ")")
  | e => .other (toString e)

instance : Host IO where
  readFile path := do
    try return .ok (← IO.FS.readBinFile path).data
    catch e => return .error (.ofError e)
  writeFile path bytes := do
    try return .ok (← IO.FS.writeBinFile path ⟨bytes⟩)
    catch e => return .error (.ofError e)
  putOut text := do (← IO.getStdout).putStr text
  putErr text := do (← IO.getStderr).putStr text

def runTool (words : List String) : IO UInt32 := do
  let usage := "Usage: " ++ String.intercalate "|" (Tool.all.map Tool.name) ++ " WORDS...\n"
  match words with
  | [] =>
    Host.putErr usage
    return 2
  | name :: words =>
    match Tool.ofName? name with
    | some t => return UInt32.ofNat (← t.start words)
    | none =>
      Host.putErr usage
      return 2

end M6502

def main (words : List String) : IO UInt32 :=
  M6502.runTool words
