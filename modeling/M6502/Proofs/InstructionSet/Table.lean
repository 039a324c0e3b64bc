import M6502.InstructionSet.Encoding
import Mathlib.Data.List.Nodup

/-!
# What tells encodings apart

An opcode stands in one row of the table, and so does a mnemonic together
with a mode, and with it the name. The branches are the mnemonics with the relative mode. The
table is searched here; elsewhere only these facts about it are used.
-/

set_option autoImplicit false

namespace M6502

theorem opcodes_ascend : (instructionTable.map fun r => r.opcode.toNat).IsChain (· < ·) := by
  decide +kernel

theorem opcodes_nodup : (instructionTable.map fun r => r.opcode.toNat).Nodup :=
  (List.isChain_iff_pairwise.1 opcodes_ascend).imp Nat.ne_of_lt

theorem parts_nodup : (instructionTable.map fun r => (r.mnemonic, r.mode)).Nodup := by
  decide +kernel

theorem relative_rows :
    ∀ r ∈ instructionTable, r.mode = .relative ↔ r.mnemonic.isBranch = true := by
  decide +kernel

namespace Mnemonic

def all : List Mnemonic := [.adc, .and, .asl, .bcc, .bcs, .beq, .bit, .bmi, .bne, .bpl, .brk, .bvc,
  .bvs, .clc, .cld, .cli, .clv, .cmp, .cpx, .cpy, .dec, .dex, .dey, .eor, .inc, .inx, .iny, .jmp,
  .jsr, .lda, .ldx, .ldy, .lsr, .nop, .ora, .pha, .php, .pla, .plp, .rol, .ror, .rti, .rts, .sbc,
  .sec, .sed, .sei, .sta, .stx, .sty, .tax, .tay, .tsx, .txa, .txs, .tya]

theorem mem_all (m : Mnemonic) : m ∈ all := by
  cases m <;> decide

theorem letters_nodup : (all.map letters).Nodup := by
  decide +kernel

theorem letters_lower : ∀ m ∈ all, m.letters ≠ [] ∧ m.letters.all Char.isLower = true := by
  decide +kernel

theorem capitals_nodup : (all.map capitals).Nodup := by
  decide +kernel

theorem length_capitals : ∀ m ∈ all, m.capitals.length = 3 := by
  decide +kernel

theorem letters_injective {m n : Mnemonic} (h : m.letters = n.letters) : m = n :=
  List.inj_on_of_nodup_map letters_nodup m.mem_all n.mem_all h

end Mnemonic

/-- An ending belongs to one mode, except that the implied and the relative have none. -/
theorem AddressingMode.eq_of_ending {m n : AddressingMode} (h : m.ending = n.ending)
    (hrelative : m = .relative ↔ n = .relative) : m = n := by
  cases m <;> cases n <;> simp_all [ending]

theorem find?_of_unique {α : Type} {p : α → Bool} {l : List α} {a : α} (ha : a ∈ l)
    (hp : p a = true) (hu : ∀ b ∈ l, p b = true → b = a) : l.find? p = some a := by
  cases hf : l.find? p with
  | none => exact absurd hp (List.find?_eq_none.1 hf a ha)
  | some b => rw [hu b (List.mem_of_find?_eq_some hf) (List.find?_some hf)]

namespace Encoding

theorem ext_row {d e : Encoding} (h : d.toRow = e.toRow) : d = e := by
  cases d
  cases e
  cases h
  rfl

theorem eq_of_opcode {d e : Encoding} (h : d.opcode = e.opcode) : d = e :=
  ext_row (List.inj_on_of_nodup_map opcodes_nodup d.documented e.documented
    (congrArg UInt8.toNat h))

theorem eq_of_parts {d e : Encoding} (hn : d.mnemonic = e.mnemonic) (hm : d.mode = e.mode) :
    d = e :=
  ext_row (List.inj_on_of_nodup_map parts_nodup d.documented e.documented (Prod.ext hn hm))

theorem relative_iff (e : Encoding) : e.mode = .relative ↔ e.mnemonic.isBranch = true :=
  relative_rows e.toRow e.documented

/-- All mnemonics are of one length, so a name tells where its ending begins. -/
theorem eq_of_name {d e : Encoding} (h : d.name = e.name) : d = e := by
  have hchars : d.mnemonic.capitals ++ d.mode.ending.toList =
      e.mnemonic.capitals ++ e.mode.ending.toList := String.ofList_injective h
  have hlength : d.mnemonic.capitals.length = e.mnemonic.capitals.length := by
    rw [Mnemonic.length_capitals _ d.mnemonic.mem_all,
      Mnemonic.length_capitals _ e.mnemonic.mem_all]
  obtain ⟨hcapitals, hending⟩ := List.append_inj hchars hlength
  have hmnemonic : d.mnemonic = e.mnemonic :=
    List.inj_on_of_nodup_map Mnemonic.capitals_nodup d.mnemonic.mem_all e.mnemonic.mem_all hcapitals
  have hrelative : d.mode = .relative ↔ e.mode = .relative := by
    rw [relative_iff, relative_iff, hmnemonic]
  exact eq_of_parts hmnemonic (AddressingMode.eq_of_ending (String.toList_inj.1 hending) hrelative)

theorem ofOpcode?_opcode (e : Encoding) : ofOpcode? e.opcode = some e :=
  find?_of_unique e.mem_all (beq_self_eq_true _) fun _ _ h => eq_of_opcode (eq_of_beq h)

theorem opcode_of_ofOpcode? {b : UInt8} {e : Encoding} (h : ofOpcode? b = some e) :
    e.opcode = b := by
  have hb := List.find?_some h
  exact eq_of_beq hb

theorem ofOpcode?_eq_none {b : UInt8} : ofOpcode? b = none ↔ ∀ e : Encoding, e.opcode ≠ b := by
  constructor
  · rintro hb e rfl
    rw [ofOpcode?_opcode] at hb
    contradiction
  · intro hb
    cases he : ofOpcode? b with
    | none => rfl
    | some e => exact absurd (opcode_of_ofOpcode? he) (hb e)

theorem ofName?_name (e : Encoding) : ofName? e.name = some e :=
  find?_of_unique e.mem_all (beq_self_eq_true _) fun _ _ h => eq_of_name (eq_of_beq h)

theorem parts_of {m : Mnemonic} {mode : AddressingMode} (h : (ofParts? m mode).isSome = true) :
    (of m mode h).mnemonic = m ∧ (of m mode h).mode = mode := by
  have hfind : ofParts? m mode = some (of m mode h) := (Option.some_get h).symm
  have hparts := List.find?_some hfind
  rw [Bool.and_eq_true, beq_iff_eq, beq_iff_eq] at hparts
  exact hparts

@[simp]
theorem mnemonic_of {m : Mnemonic} {mode : AddressingMode}
    (h : (ofParts? m mode).isSome = true) : (of m mode h).mnemonic = m :=
  (parts_of h).1

@[simp]
theorem mode_of {m : Mnemonic} {mode : AddressingMode}
    (h : (ofParts? m mode).isSome = true) : (of m mode h).mode = mode :=
  (parts_of h).2

@[simp]
theorem size_of {m : Mnemonic} {mode : AddressingMode}
    (h : (ofParts? m mode).isSome = true) : (of m mode h).size = mode.size := by
  rw [size, mode_of]

theorem size_cases (e : Encoding) : e.size = 1 ∨ e.size = 2 ∨ e.size = 3 := by
  have hpos := e.mode.size_pos
  have hle := e.mode.size_le
  unfold size
  omega

end Encoding

end M6502
