import M6502.Command.Path

/-!
# Sessions

A host in memory: one directory of files without directories in it, and the
text that was written to either channel. Around the directory there is little
to be found, and nothing can be put there.
-/

set_option autoImplicit false

namespace M6502

structure Session where
  files : List (String × Array UInt8)
  out : String := ""
  err : String := ""
  deriving DecidableEq, Repr

namespace Session

def file? (s : Session) (name : String) : Option (Array UInt8) :=
  s.files.lookup name

def commonDirectories : List String :=
  ["bin", "etc", "home", "lib", "proc", "root", "sys", "tmp", "usr", "var"]

def find? (s : Session) : Directory → String → Option Entry
  | .home, name => (s.file? name).map .file
  | .around, _ | .common, _ => none
  | .root, name =>
    if name = "dev" then some (.directory .devices)
    else if name ∈ commonDirectories then some (.directory .common)
    else none
  | .devices, "null" => some .null
  | .devices, "full" => some .full
  | .devices, "stdin" => some .null
  | .devices, "stdout" => some .out
  | .devices, "stderr" => some .err
  | .devices, _ => none

def locate (s : Session) (path : String) : Except FileFault Target :=
  if path = "" then .error .missing
  else if 4096 ≤ path.utf8ByteSize then .error .nameTooLong
  else
    let p := Path.ofString path
    Path.follow s.find? p.start p.parts

def read (s : Session) (path : String) : Except FileFault (Array UInt8) := do
  match ← s.locate path with
  | .directory => .error .isDirectory
  | .name d name =>
    Path.checkName name
    match s.find? d name with
    | none => .error .missing
    | some (.directory _) => .error .isDirectory
    | some entry =>
      if path.endsWith "/" then .error .notDirectory
      else match entry with
        | .file bytes => .ok bytes
        | _ => .ok #[]

def store (name : String) (bytes : Array UInt8) :
    List (String × Array UInt8) → List (String × Array UInt8)
  | [] => [(name, bytes)]
  | f :: files => if f.1 = name then (name, bytes) :: files else f :: store name bytes files

def textOf (bytes : Array UInt8) : String :=
  (String.fromUTF8? ⟨bytes⟩).getD ""

def write (s : Session) (path : String) (bytes : Array UInt8) : Except FileFault Session := do
  match ← s.locate path with
  | .directory => .error .isDirectory
  | .name d name =>
    if path.endsWith "/" then .error .isDirectory
    else
      Path.checkName name
      match d, s.find? d name with
      | _, some (.directory _) => .error .isDirectory
      | _, some .null => .ok s
      | _, some .full => if bytes.isEmpty then .ok s else .error .noSpace
      | _, some .out => .ok { s with out := s.out ++ textOf bytes }
      | _, some .err => .ok { s with err := s.err ++ textOf bytes }
      | .home, _ => .ok { s with files := store name bytes s.files }
      | _, _ => .error .missing

instance : Host (StateM Session) where
  readFile path := fun s => (s.read path, s)
  writeFile path bytes := fun s =>
    match s.write path bytes with
    | .ok s => (.ok (), s)
    | .error e => (.error e, s)
  putOut text := modify fun s => { s with out := s.out ++ text }
  putErr text := modify fun s => { s with err := s.err ++ text }

theorem lookup_store (name other : String) (bytes : Array UInt8)
    (files : List (String × Array UInt8)) :
    (store name bytes files).lookup other =
      if other = name then some bytes else files.lookup other := by
  induction files with
  | nil => by_cases h : other = name <;> simp [store, List.lookup_cons, h, beq_false_of_ne]
  | cons f files ih =>
    obtain ⟨key, value⟩ := f
    rw [store]
    by_cases hk : key = name
    · by_cases h : other = name <;> simp [List.lookup_cons, hk, h, beq_false_of_ne]
    · by_cases h : other = key
      · simp [h, hk]
      · simpa [List.lookup_cons, hk, beq_false_of_ne h] using ih

end Session

end M6502
