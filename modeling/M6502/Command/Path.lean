import M6502.Command.Host
import M6502.Text.Blank

/-!
# Paths

A path is a row of names between slashes. All but the last of them have to
stand for directories, which are followed one by one; a single dot stays in a
directory and two dots leave it. What a name stands for is given by a table.
-/

set_option autoImplicit false

namespace M6502

open Text

inductive Directory where
  | home
  | around
  | root
  | devices
  | common
  deriving DecidableEq, Repr

inductive Entry where
  | file (bytes : Array UInt8)
  | directory (d : Directory)
  | null
  | full
  | out | err
  deriving DecidableEq, Repr

inductive Target where
  | directory
  | name (d : Directory) (name : String)
  deriving DecidableEq, Repr

def Directory.parent : Directory → Directory
  | .home | .around => .around
  | .root | .devices | .common => .root

structure Path where
  start : Directory
  parts : List String
  deriving DecidableEq, Repr

namespace Path

def ofString (s : String) : Path where
  start := if s.startsWith "/" then .root else .home
  parts := ((splitOn '/' s.toList).map String.ofList).filter (· ≠ "")

def checkName (name : String) : Except FileFault Unit :=
  if 255 < name.utf8ByteSize then .error .nameTooLong else .ok ()

def follow (find? : Directory → String → Option Entry) (d : Directory) :
    List String → Except FileFault Target
  | [] => .ok .directory
  | part :: parts =>
    if part = "." then follow find? d parts
    else if part = ".." then follow find? d.parent parts
    else if parts.isEmpty then .ok (.name d part)
    else do
      checkName part
      match find? d part with
      | none => .error .missing
      | some (.directory d) => follow find? d parts
      | some _ => .error .notDirectory

theorem follow_dot (find? : Directory → String → Option Entry) (d : Directory)
    (parts : List String) : follow find? d ("." :: parts) = follow find? d parts := by
  simp [follow]

/-- Nothing is found behind a file, not even the directory that it is in. -/
theorem follow_file (find? : Directory → String → Option Entry) (d : Directory)
    (name part : String) (parts : List String) (bytes : Array UInt8)
    (hn : name ≠ "." ∧ name ≠ "..") (hs : name.utf8ByteSize ≤ 255)
    (he : find? d name = some (.file bytes)) :
    follow find? d (name :: part :: parts) = .error .notDirectory := by
  simp [follow, checkName, hn, he, Nat.not_lt.2 hs, bind, Except.bind]

end Path

end M6502
