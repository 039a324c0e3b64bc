/-!
# Settings of a computer

How long a run may take and whether executions are counted.
-/

set_option autoImplicit false

namespace M6502

structure Settings where
  maxInstructions : Option Nat := some 1000000
  count : Bool := false
  deriving DecidableEq, Repr

namespace Settings

def unlimited : Nat := 0x4000000000000000

def limit (s : Settings) : Nat :=
  s.maxInstructions.getD unlimited

end Settings

end M6502
