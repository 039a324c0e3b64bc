import M6502.Program.Basic

/-!
# Calls

The operations on programs as data, so that a program can be said to come
from a sequence of them. `perform` stops at the first call that fails,
`attempt` goes on without it; both keep what was done before.
-/

set_option autoImplicit false

namespace M6502

inductive Call where
  | add (name : String) (operand : Operand)
  | instruct (e : Encoding) (operand : Operand)
  | put (value : Int)
  | putWord (value : UInt16)
  | putBytes (bs : List UInt8)
  | putText (text : String)
  | putLabel (name : String)
  | putDisplacement (name : String)
  | includeFile (contents : Option (List UInt8))
  | setLabel (name : String)
  | setOrigin (addr : UInt16)
  | moveTo (addr : UInt16)
  | mint
  | setVariable (name : String)
  deriving DecidableEq

def Call.apply (p : Program) : Call → Except ProgramError Program
  | .add name operand => p.add name operand
  | .instruct e operand => p.instruct e operand
  | .put value => p.put value
  | .putWord value => .ok (p.putWord value)
  | .putBytes bs => .ok (p.putBytes bs)
  | .putText text => p.putText text
  | .putLabel name => .ok (p.putLabel name)
  | .putDisplacement name => .ok (p.putDisplacement name)
  | .includeFile contents => p.includeFile contents
  | .setLabel name => p.setLabel name
  | .setOrigin addr => .ok (p.setOrigin addr)
  | .moveTo addr => p.moveTo addr
  | .mint => .ok p.mint
  | .setVariable name => p.setVariable name

namespace Program

def perform (p : Program) : List Call → Except ProgramError Unit × Program
  | [] => (.ok (), p)
  | c :: calls =>
    match c.apply p with
    | .ok q => q.perform calls
    | .error e => (.error e, p)

def attempt (p : Program) (c : Call) : Program :=
  match c.apply p with
  | .ok q => q
  | .error _ => p

def attemptAll (p : Program) (calls : List Call) : Program :=
  calls.foldl attempt p

theorem attemptAll_append (p : Program) (cs ds : List Call) :
    p.attemptAll (cs ++ ds) = (p.attemptAll cs).attemptAll ds :=
  List.foldl_append

theorem perform_append (p : Program) (cs ds : List Call) :
    p.perform (cs ++ ds) =
      match p.perform cs with
      | (.ok _, q) => q.perform ds
      | (.error e, q) => (.error e, q) := by
  induction cs generalizing p with
  | nil => rfl
  | cons c cs ih =>
    simp only [List.cons_append, perform]
    cases c.apply p with
    | ok q => exact ih q
    | error e => rfl

end Program

end M6502
