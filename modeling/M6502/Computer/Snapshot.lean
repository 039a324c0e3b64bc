import M6502.Json.Value
import M6502.Processor.Registers

/-!
# Snapshots

The registers as a JSON document.
-/

set_option autoImplicit false

namespace M6502

def Registers.snapshot (r : Registers) : JsonValue :=
  .object [
    ("a", .number r.a.toNat),
    ("x", .number r.x.toNat),
    ("y", .number r.y.toNat),
    ("sp", .number r.sp.toNat),
    ("pc", .number r.pc.toNat),
    ("ad", .number r.ad.toNat),
    ("sir", .number r.sir.toInt),
    ("status", .string r.status.describe),
    ("halted", .bool r.halted)]

end M6502
