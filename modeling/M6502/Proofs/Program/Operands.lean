import M6502.Proofs.Disassembly.Resync
import M6502.Proofs.Program.Landing

/-!
# What becomes of operands

An encoding has room for no operand byte, for one or for two, and the layout
writes as many bytes of an operand as there is room for. A literal that needs
more is refused when it is written, and a distance that does when it is laid
out. The address of a label is never measured: it loses its high byte in a
single operand byte, and any operand is lost where there is none.
-/

set_option autoImplicit false

namespace M6502

namespace Encoding

def kept (e : Encoding) (w : UInt16) : UInt16 :=
  if e.size = 2 then (lowByte w).toUInt16 else w

variable {e : Encoding}

theorem kept_eq_iff {w : UInt16} : e.kept w = w ↔ e.Holds w := by
  by_cases hs : e.size = 2
  · rw [kept, if_pos hs]
    constructor
    · intro hw
      rw [← hw]
      exact e.holds_byte (lowByte w)
    · intro hw
      exact toUInt16_lowByte (hw hs)
  · rw [kept, if_neg hs]
    exact iff_of_true rfl (holds_of_size hs w)

theorem holds_kept (e : Encoding) (w : UInt16) : e.Holds (e.kept w) := by
  by_cases hs : e.size = 2
  · rw [kept, if_pos hs]
    exact e.holds_byte (lowByte w)
  · exact holds_of_size hs _

theorem bytes_kept (e : Encoding) (w : UInt16) : e.bytes (e.kept w) = e.bytes w := by
  by_cases hs : e.size = 2
  · rw [kept, if_pos hs, bytes_two hs, bytes_two hs, lowByte_toUInt16]
  · rw [kept, if_neg hs]

/-- An operand that is read back is there, and has room. -/
theorem literalOperand_kept_iff {w : UInt16} :
    e.literalOperand (e.kept w) = .value w ↔ e.size ≠ 1 ∧ e.Holds w := by
  by_cases hs : e.size = 1
  · rw [literalOperand_none hs]
    exact iff_of_false Operand.noConfusion fun h => h.1 hs
  · rw [literalOperand_value hs, Operand.value.injEq, kept_eq_iff]
    exact (and_iff_right hs).symm

end Encoding

def Item.Fits : Item → Prop
  | .instruction i => ∀ v, i.operand = .value v → i.encoding.Holds v
  | .data _ | .seek _ => True

namespace Program

open Placement

theorem fits_append {p : Program} {item : Item} (hp : ∀ x ∈ p.items, x.Fits) (h : item.Fits) :
    ∀ x ∈ (p.append item).items, x.Fits := by
  intro x hx
  rcases Array.mem_push.1 hx with hx | rfl
  · exact hp x hx
  · exact h

theorem fits_instruct {p q : Program} {e : Encoding} {operand : Operand}
    (h : p.instruct e operand = .ok q) (hp : ∀ x ∈ p.items, x.Fits) : ∀ x ∈ q.items, x.Fits := by
  have hfits : (Item.instruction ⟨e, operand⟩).Fits := instruct_holds h
  rw [instruct_ok h]
  exact fits_append hp hfits

theorem fits_apply {p q : Program} {c : Call} (h : c.apply p = .ok q)
    (hp : ∀ x ∈ p.items, x.Fits) : ∀ x ∈ q.items, x.Fits := by
  cases c with
  | add name operand =>
    obtain ⟨e, he, -⟩ := add_ok h
    rw [Call.apply, add, he] at h
    exact fits_instruct h hp
  | instruct e operand => exact fits_instruct h hp
  | put value => rw [put_ok h]; exact fits_append hp trivial
  | putWord value => rw [← Except.ok.inj h]; exact fits_append hp trivial
  | putBytes bs => rw [← Except.ok.inj h]; exact fits_append hp trivial
  | putText text =>
    obtain ⟨bs, rfl⟩ := putText_ok h
    exact fits_append hp trivial
  | putLabel name => rw [← Except.ok.inj h]; exact fits_append hp trivial
  | putDisplacement name => rw [← Except.ok.inj h]; exact fits_append hp trivial
  | includeFile contents =>
    obtain ⟨bs, rfl⟩ := includeFile_ok h
    exact fits_append hp trivial
  | setLabel name =>
    obtain ⟨-, rfl⟩ := setLabel_ok h
    exact hp
  | setOrigin addr => rw [← Except.ok.inj h]; exact hp
  | moveTo addr => rw [moveTo_ok h]; exact fits_append hp trivial
  | mint => rw [← Except.ok.inj h]; exact hp
  | setVariable name =>
    obtain ⟨names, rfl⟩ := setVariable_ok h
    exact hp

/-- All literals of a program have room, whatever calls made it. -/
theorem fits_attemptAll {p : Program} (hp : ∀ x ∈ p.items, x.Fits) (calls : List Call) :
    ∀ x ∈ (p.attemptAll calls).items, x.Fits := by
  induction calls generalizing p with
  | nil => exact hp
  | cons c calls ih =>
    refine ih (p := p.attempt c) ?_
    unfold attempt
    split
    · rename_i q h
      exact fits_apply h hp
    · exact hp

/-- An operand that is there is a literal in the end. -/
theorem literal?_of_word {p : Program} {cursor : Nat} {operand : Operand} {w : UInt16}
    (hnone : operand ≠ .none) (hw : p.operandWord cursor operand = .ok w) :
    p.literal? cursor operand = some (.value w) := by
  cases operand with
  | none => exact absurd rfl hnone
  | value v =>
    cases hw
    rfl
  | label name => rw [literal?, resolve_ok_iff.1 hw, Option.map_some]
  | displacement name =>
    obtain ⟨d, hd, hw⟩ := bind_ok_iff.1 hw
    obtain ⟨addr, haddr, -, rfl⟩ := displacement_ok_iff.1 hd
    rw [literal?, haddr, Option.map_some, ← Except.ok.inj hw]

def Keeps (p : Program) (i : Instruction) : Prop :=
  i.encoding.size ≠ 1 ∧
    ∀ name addr, i.operand = .label name → p.address? name = some addr → i.encoding.Holds addr

/-- Only the address of a label can be too wide for the operand bytes that there are. -/
theorem keeps_iff {p : Program} {cursor : Nat} {i : Instruction} {w : UInt16}
    (hfits : (Item.instruction i).Fits) (hnone : i.operand ≠ .none)
    (hw : p.operandWord cursor i.operand = .ok w) :
    p.Keeps i ↔ i.encoding.size ≠ 1 ∧ i.encoding.Holds w := by
  refine and_congr_right fun _ => ?_
  obtain ⟨e, operand⟩ := i
  cases operand with
  | none => exact absurd rfl hnone
  | value v =>
    cases hw
    exact iff_of_true nofun (hfits w rfl)
  | label name =>
    have haddr := resolve_ok_iff.1 hw
    constructor
    · intro h
      exact h name w rfl haddr
    · rintro h other addr ho ha
      cases ho
      cases haddr.symm.trans ha
      exact h
  | displacement name =>
    obtain ⟨d, -, hw⟩ := bind_ok_iff.1 hw
    rw [← Except.ok.inj hw]
    exact iff_of_true nofun (e.holds_byte d)

end Program

namespace Instruction

/-- Where the bytes of an encoding stand, it is decoded with what they keep of its operand. -/
theorem decodeAt?_of_bytes {bytes : Array UInt8} {offset : Nat} {e : Encoding} {w : UInt16}
    (h : ∀ k < e.size, bytes[offset + k]? = (e.bytes w)[k]?) :
    decodeAt? bytes offset = some ⟨e, e.literalOperand (e.kept w)⟩ := by
  have hle : e.size ≤ 3 := e.mode.size_le
  have hfront : (bytes.extract offset (offset + 3)).toList.take e.size = e.bytes (e.kept w) := by
    rw [e.bytes_kept]
    apply List.ext_getElem?
    intro k
    rw [Array.toList_extract, List.extract_eq_take_drop, Nat.add_sub_cancel_left, List.take_take,
      Nat.min_eq_left hle, List.getElem?_take, List.getElem?_drop, Array.getElem?_toList]
    split
    · rename_i hk
      exact h k hk
    · rename_i hk
      rw [List.getElem?_eq_none (by rw [e.length_bytes]; omega)]
  rw [decodeAt?, ← List.take_append_drop e.size (bytes.extract offset (offset + 3)).toList, hfront]
  exact decode?_bytes (e.holds_kept w) _

end Instruction

namespace Program

open Placement

theorem size_build {p : Program} {clamp : Bool} {bytes : Array UInt8}
    (h : p.build clamp = .ok bytes) :
    bytes.size = if clamp then min (p.items.toList.foldl Item.advance 0) p.size else p.size := by
  obtain ⟨b, hb, rfl⟩ := build_ok_iff.1 h
  rw [layout_eq] at hb
  obtain ⟨hsize, hcursor⟩ := foldlM_place_frame hb
  rw [size_fitted, hcursor, hsize]
  rfl

/-- An exposed instruction that a build has room for is decoded from it, with what its operand bytes
keep of its operand. -/
theorem decodeAt?_exposed {p : Program} {clamp : Bool} {bytes : Array UInt8}
    (hbuild : p.build clamp = .ok bytes) {cursor : Nat} {i : Instruction}
    (hu : Exposed (replay 0 p.items.toList) ⟨cursor, .instruction i⟩)
    (hroom : cursor + i.size ≤ bytes.size) :
    ∃ w, p.operandWord cursor i.operand = .ok w ∧ Instruction.decodeAt? bytes cursor =
      some ⟨i.encoding, i.encoding.literalOperand (i.encoding.kept w)⟩ := by
  obtain ⟨whole, hwhole, hfront⟩ := build_front hbuild
  obtain ⟨bs, hbs, -, hbytes⟩ := bytes_exposed hwhole hu
  obtain ⟨w, hw, hencode⟩ := bind_ok_iff.1 hbs
  obtain rfl : i.encoding.bytes w = bs := Except.ok.inj hencode
  refine ⟨w, hw, Instruction.decodeAt?_of_bytes fun k hk => ?_⟩
  have hlt : cursor + k < bytes.size := Nat.lt_of_lt_of_le (Nat.add_lt_add_left hk _) hroom
  rw [← hbytes k (by rwa [i.encoding.length_bytes]), Array.getElem?_eq_getElem hlt]
  exact (hfront _ _ (Array.getElem?_eq_getElem hlt)).symm

/-- Every operand of an exposed instruction is read back from a build, unless the encoding has no
operand byte, or has one and the operand is a label whose address needs two. Then the operand is
lost or cut without a word, though the instruction is still read as the one it is. A literal that
needs more than its operand byte is refused from the start. -/
theorem operands_read_back (size : Nat) (calls : List Call) :
    (∀ (q : Program) name e v, Encoding.ofName? name = some e → ¬ e.Holds v →
      q.add name (.value v) = .error (.outOfRange v.toNat)) ∧
    ∀ clamp bytes, ((empty size).attemptAll calls).build clamp = .ok bytes →
      ∀ cursor i, Exposed ((empty size).placements calls) ⟨cursor, .instruction i⟩ →
        i.operand ≠ .none →
        (clamp = true → cursor + i.size ≤ ((empty size).attemptAll calls).position) →
        ∃ w, ((empty size).attemptAll calls).literal? cursor i.operand = some (.value w) ∧
          Instruction.decodeAt? bytes cursor =
            some ⟨i.encoding, i.encoding.literalOperand (i.encoding.kept w)⟩ ∧
          (Instruction.decodeAt? bytes cursor = some ⟨i.encoding, .value w⟩ ↔
            ((empty size).attemptAll calls).Keeps i) := by
  refine ⟨fun q name e v he hv => ?_, fun clamp bytes hbuild cursor i hu hnone hclamp => ?_⟩
  · rw [add, he]
    exact instruct_wide q hv
  have hposition := position_eq_foldl size calls
  rw [placements_empty] at hu
  generalize hp : (empty size).attemptAll calls = p at hbuild hu hclamp hposition ⊢
  have hroom : cursor + i.size ≤ bytes.size := by
    have hstop : cursor + i.size ≤ p.size :=
      ((build_exists_iff p).1 (build_front hbuild |>.imp fun _ h => h.1) _ hu.mem).2
    rw [size_build hbuild, ← hposition]
    split
    · rename_i hc
      exact Nat.le_min.2 ⟨hclamp hc, hstop⟩
    · exact hstop
  have hfits : (Item.instruction i).Fits := by
    have hmem := Array.mem_toList_iff.1 (item_of_mem_replay hu.mem)
    rw [← hp] at hmem
    exact fits_attemptAll (p := empty size) (by simp [empty]) calls _ hmem
  obtain ⟨w, hw, hread⟩ := decodeAt?_exposed hbuild hu hroom
  refine ⟨w, literal?_of_word hnone hw, hread, ?_⟩
  rw [hread, keeps_iff hfits hnone hw, ← Encoding.literalOperand_kept_iff, Option.some.injEq,
    Instruction.mk.injEq, eq_self, true_and]

/-- The jump of the loop holds the whole address of its label. -/
theorem operands_read_back_loop :
    Instruction.decodeAt? #[0xC0, 0x10, 0x4C, 0x07, 0x80, 0x70, 0xF9, 0xEA] 2 =
      some ⟨.of .jmp .absolute, .value 0x8007⟩ := by
  have hbuild : ((empty 16).attemptAll loopCalls).build true =
      .ok #[0xC0, 0x10, 0x4C, 0x07, 0x80, 0x70, 0xF9, 0xEA] := by
    decide +kernel
  have hbehind : ∀ v ∈ ((empty 16).placements loopCalls).drop 2,
      stop ⟨2, .instruction ⟨.of .jmp .absolute, .label "end"⟩⟩ ≤ v.position := by
    decide +kernel
  have hexposed : Exposed ((empty 16).placements loopCalls)
      ⟨2, .instruction ⟨.of .jmp .absolute, .label "end"⟩⟩ :=
    ⟨((empty 16).placements loopCalls).take 1, ((empty 16).placements loopCalls).drop 2,
      by decide +kernel, fun v hv _ hi => covers_of_behind (hbehind v hv) hi⟩
  obtain ⟨w, hw, -, hread⟩ := (operands_read_back 16 loopCalls).2 true _ hbuild 2 _ hexposed nofun
    fun _ => (by decide +kernel : 2 + (Encoding.of .jmp .absolute).size ≤ _)
  have haddress : ((empty 16).attemptAll loopCalls).literal? 2 (.label "end") =
      some (.value 0x8007) := by
    decide +kernel
  cases haddress.symm.trans hw
  refine hread.2 ⟨?_, fun _ addr _ _ => Encoding.holds_of_size ?_ addr⟩
  · show (Encoding.of .jmp .absolute).size ≠ 1
    decide +kernel
  · show (Encoding.of .jmp .absolute).size ≠ 2
    decide +kernel

def outsidePage : List Call :=
  [.setOrigin 0x1234, .setLabel "table", .add "LDA_ZP" (.label "table")]

/-- It builds all the same, and loads from another place. -/
theorem operand_cut :
    ((empty 16).attemptAll outsidePage).build true = .ok #[0xA5, 0x34] ∧
      ((empty 16).attemptAll outsidePage).literal? 0 (.label "table") = some (.value 0x1234) ∧
      Instruction.decodeAt? #[0xA5, 0x34] 0 = some ⟨.of .lda .zeroPage, .value 0x34⟩ := by
  decide +kernel

end Program

end M6502
