import M6502.Proofs.Disassembly.Resync
import M6502.Proofs.Source.Reading

/-!
# Listings read back

The line that the listing writes for an item orders exactly the calls that
append the item again, data one byte at a time. What a sweep returns and what
source text describes is always of this kind.
-/

set_option autoImplicit false

namespace M6502

open Text

def AddressingMode.takesLabel : AddressingMode → Bool
  | .absolute | .absoluteX | .absoluteY | .indirect => true
  | _ => false

def Instruction.Listable (i : Instruction) : Prop :=
  match i.operand with
  | .none => i.size = 1
  | .value v => i.size ≠ 1 ∧ i.encoding.Holds v
  | .label name => i.encoding.mode.takesLabel = true ∧ isLowerIdent name.toList = true
  | .displacement name => i.encoding.mode = .relative ∧ isLowerIdent name.toList = true

def Item.Listable : Item → Prop
  | .instruction i => i.Listable
  | .data (.bytes bs) => bs ≠ []
  | .data (.label name) => isLowerIdent name.toList = true
  | .data (.displacement _) | .seek _ => False

def Item.pieces : Item → List Item
  | .data (.bytes bs) => bs.map fun b => .data (.bytes [b])
  | item => [item]

def Item.calls : Item → List Call
  | .instruction i => [.instruct i.encoding i.operand]
  | .data (.bytes bs) => bs.map fun b => .put b.toNat
  | .data (.label name) => [.putLabel name]
  | .data (.displacement _) | .seek _ => []

theorem lowerIdent_word {s : List Char} (h : isLowerIdent s = true) :
    isIdent s = true ∧ PlainWord s := by
  obtain ⟨hi, hl⟩ := Bool.and_eq_true_iff.1 h
  obtain ⟨c, t, rfl, -, hall⟩ := isIdent_chars hi
  constructor
  · exact hi
  · constructor
    · simp
    · intro d hd
      have hu := List.all_eq_true.1 hl d hd
      rw [Bool.not_eq_true'] at hu
      exact isPlain_of_isIdentChar (List.all_eq_true.1 hall d hd) hu

theorem hexLiteral_digits {width least most n : Nat} (hw : 0 < width) (hn : n < Nat.pow 16 width)
    (hl : least ≤ width) (hm : width ≤ most) :
    isHexLiteral least most ('$' :: hexDigits width n) = true := by
  have hd : (hexDigits width n).all isHexDigit = true :=
    List.all_eq_true.2 fun _ => isHexDigit_of_mem
  rw [isHexLiteral, length_hexDigits hw hn, hd]
  simp [hl, hm]

theorem literal_word (size : Nat) (v : UInt16) : PlainWord (literal size v) := by
  apply PlainWord.cons (by decide)
  intro c hc
  obtain ⟨d, hlt, rfl⟩ := mem_hexDigits hc
  exact isPlain_digitChar d hlt

theorem read?_literal (size : Nat) (v : UInt16) :
    Literal.read? (literal size v) = some (.number v.toNat) := by
  have hv : v.toNat < Literal.bound := Nat.lt_trans v.toNat_lt (by decide)
  rw [literal, Literal.read?, readNumber_hexDigits hv]
  rfl

theorem read?_ident {s : List Char} (h : isIdent s = true) : Literal.read? s = some (.name s) := by
  obtain ⟨c, t, rfl, hc, -⟩ := isIdent_chars h
  unfold Literal.read?
  split
  · rename_i heq
    cases heq
    contradiction
  · rename_i heq
    cases heq
    contradiction
  · contradiction
  · rename_i heq
    cases heq
    simp [not_digit_of_start hc, h]

namespace AddressingMode

theorem word_write {m : AddressingMode} {arg : List Char} (h : PlainWord arg) :
    PlainWord (m.write arg) := by
  have hopen : ∀ c ∈ m.opening, isPlain c = true := by
    rw [← List.all_eq_true]
    cases m <;> rfl
  have hclose : ∀ c ∈ m.closing, isPlain c = true := by
    rw [← List.all_eq_true]
    cases m <;> rfl
  have htail := h.append hclose
  rw [write_eq]
  constructor
  · simp [htail.ne_nil]
  · exact List.forall_mem_append.2 ⟨hopen, htail.plain⟩

theorem admits_literal {m : AddressingMode} {v : UInt16} (hs : m.size ≠ 1)
    (hv : m.size = 2 → v.toNat ≤ 0xFF) : m.admits (literal m.size v) = true := by
  have hnarrow (h : v.toNat ≤ 0xFF) : isHexLiteral 1 2 (literal 2 v) = true :=
    hexLiteral_digits (by decide) (Nat.lt_succ_of_le h) (by decide) (by decide)
  have hwide : isHexLiteral 3 4 (literal 3 v) = true :=
    hexLiteral_digits (by decide) v.toNat_lt (by decide) (by decide)
  have hpointer : isHexLiteral 1 4 (literal 3 v) = true :=
    hexLiteral_digits (by decide) v.toNat_lt (by decide) (by decide)
  have hident (s : List Char) (h : isHexLiteral 3 4 s = true) : isWideTarget s = true := by
    rw [isWideTarget, h, Bool.or_true]
  cases m with
  | implied => exact absurd rfl hs
  | immediate =>
    have h : isHexLiteral 1 2 (literal 2 v) = true := hnarrow (hv rfl)
    change (isHexLiteral 1 2 (literal 2 v) || _ || _) = true
    rw [h]
    rfl
  | zeroPage => exact hnarrow (hv rfl)
  | zeroPageX => exact hnarrow (hv rfl)
  | zeroPageY => exact hnarrow (hv rfl)
  | absolute => exact hident _ hwide
  | absoluteX => exact hident _ hwide
  | absoluteY => exact hident _ hwide
  | indirect =>
    change (isIdent (literal 3 v) || isHexLiteral 1 4 (literal 3 v)) = true
    rw [hpointer, Bool.or_true]
  | indirectX => exact hnarrow (hv rfl)
  | indirectY => exact hnarrow (hv rfl)
  | relative =>
    change (isIdent (literal 2 v) || isHexLiteral 1 2 (literal 2 v)) = true
    rw [hnarrow (hv rfl), Bool.or_true]

theorem admits_label {m : AddressingMode} {s : List Char} (hm : m.takesLabel = true)
    (h : isIdent s = true) : m.admits s = true := by
  cases m <;> first | contradiction | simp [admits, isWideTarget, isPointer, h]

end AddressingMode

namespace Source

theorem operand?_write {e : Encoding} {arg : List Char} (hne : arg ≠ [])
    (ha : e.mode.admits arg = true) :
    operand? e (e.mode.write arg) =
      match Literal.read? arg with
      | none => none
      | some (.number n) =>
        some (.value (UInt16.ofNat (if e.size = 2 then n % 256 else n % 65536)))
      | some (.name s) =>
        if e.mode = .relative then some (.displacement (String.ofList s))
        else some (.label (String.ofList s)) := by
  have hempty : (e.mode.write arg).isEmpty = false := by
    simp [AddressingMode.write_eq, hne]
  rw [operand?, hempty, AddressingMode.core_write (AddressingMode.admits_unmarked ha)]
  rfl

/-- The line of an instruction with an argument orders the instruction. -/
theorem readLine_write {number : Nat} {e : Encoding} {arg : List Char} {operand : Operand}
    (hw : PlainWord arg) (ha : e.mode.admits arg = true)
    (ho : operand? e (e.mode.write arg) = some operand) :
    readLine number (e.mnemonic.letters ++ ' ' :: e.mode.write arg) =
      [.ok (.instruct e operand)] := by
  have hl := e.mnemonic.word_letters
  have hv : PlainWord (e.mode.write arg) := AddressingMode.word_write hw
  have hs := statement_between (m := [' ']) hl (by decide) hv
  have hcolon : ':' ∉ e.mnemonic.letters ++ ' ' :: e.mode.write arg := by
    have hcl := colon_not_mem hl
    have hcv := colon_not_mem hv
    simp [hcl, hcv]
  have hi := instruction_operand number hv
    ((e.mode.accepts_iff _).2 ⟨arg, ha, rfl⟩) ho
  obtain ⟨c, s, hcs, hdot⟩ := e.mnemonic.letters_cons
  rw [List.singleton_append] at hs
  rw [hcs, List.cons_append] at hs hcolon hi ⊢
  rw [readLine_instruction hs hdot hcolon, hi]

theorem readLine_bare {number : Nat} {e : Encoding} (hm : e.mode = .implied) :
    readLine number e.mnemonic.letters = [.ok (.instruct e .none)] := by
  have hl := e.mnemonic.word_letters
  have hs := statement_word hl
  have hcolon := colon_not_mem hl
  have hi := instruction_bare number hm
  obtain ⟨c, s, hcs, hdot⟩ := e.mnemonic.letters_cons
  rw [hcs] at hs hcolon hi ⊢
  rw [readLine_instruction hs hdot hcolon, hi]

theorem implied_of_size {e : Encoding} (h : e.size = 1) : e.mode = .implied := by
  unfold Encoding.size at h
  cases hm : e.mode <;> rw [hm] at h <;> first | rfl | contradiction

theorem ofNat_held {e : Encoding} {v : UInt16} (hv : e.Holds v) :
    UInt16.ofNat (if e.size = 2 then v.toNat % 256 else v.toNat % 65536) = v := by
  have hlt := v.toNat_lt
  split
  · rename_i hs
    have hle := hv hs
    rw [Nat.mod_eq_of_lt (by omega), UInt16.ofNat_toNat]
  · rw [Nat.mod_eq_of_lt hlt, UInt16.ofNat_toNat]

theorem readLine_instruction_line (number : Nat) {i : Instruction} (h : i.Listable) :
    readLine number i.line = [.ok (.instruct i.encoding i.operand)] := by
  obtain ⟨e, operand⟩ := i
  cases operand with
  | none =>
    have hs : e.size = 1 := h
    exact readLine_bare (implied_of_size hs)
  | value v =>
    obtain ⟨hs, hv⟩ : e.size ≠ 1 ∧ e.Holds v := h
    have hw := literal_word e.size v
    have ha : e.mode.admits (literal e.size v) = true := AddressingMode.admits_literal hs hv
    apply readLine_write hw ha
    rw [operand?_write hw.ne_nil ha, read?_literal]
    simp only [ofNat_held hv]
  | label name =>
    obtain ⟨hm, hn⟩ : e.mode.takesLabel = true ∧ isLowerIdent name.toList = true := h
    obtain ⟨hi, hw⟩ := lowerIdent_word hn
    have ha := AddressingMode.admits_label hm hi
    have hrel : e.mode ≠ .relative := by
      intro hr
      rw [hr] at hm
      contradiction
    apply readLine_write hw ha
    rw [operand?_write hw.ne_nil ha, read?_ident hi]
    simp only [if_neg hrel, String.ofList_toList]
  | displacement name =>
    obtain ⟨hm, hn⟩ : e.mode = .relative ∧ isLowerIdent name.toList = true := h
    obtain ⟨hi, hw⟩ := lowerIdent_word hn
    have ha : e.mode.admits name.toList = true := by
      rw [hm]
      simp [AddressingMode.admits, hi]
    apply readLine_write hw ha
    rw [operand?_write hw.ne_nil ha, read?_ident hi]
    simp only [if_pos hm, String.ofList_toList]

theorem literal_unmarked (b : UInt8) : Unmarked (literal 2 b.toUInt16) := by
  have hlt : b.toUInt16.toNat < Nat.pow 16 2 := by
    rw [UInt8.toNat_toUInt16]
    exact b.toNat_lt
  have hhex : isHexLiteral 1 2 (literal 2 b.toUInt16) = true :=
    hexLiteral_digits (by decide) hlt (by decide) (by decide)
  exact AddressingMode.hexLiteral_unmarked hhex

theorem comma_not_mem {s : List Char} (h : Unmarked s) : ',' ∉ s := by
  intro hc
  exact absurd (h ',' hc) (by decide)

theorem arguments_byteList {bs : List UInt8} (h : bs ≠ []) :
    arguments (byteList bs) = bs.map fun b => literal 2 b.toUInt16 := by
  induction bs with
  | nil => contradiction
  | cons b bs ih =>
    have hb : arguments (literal 2 b.toUInt16) = [literal 2 b.toUInt16] :=
      arguments_word (literal_word _ _) (comma_not_mem (literal_unmarked b))
    cases bs with
    | nil => exact hb
    | cons c bs =>
      have hsplit : byteList (b :: c :: bs) =
          literal 2 b.toUInt16 ++ ',' :: ' ' :: byteList (c :: bs) := by
        simp [byteList]
      rw [hsplit, arguments_append, arguments_blank, hb, ih (by simp)]
      rfl

/-- A list of bytes ends with a word and has no comment in it. -/
theorem byteList_ends {bs : List UInt8} (h : bs ≠ []) :
    ∃ m v, byteList bs = m ++ v ∧ ';' ∉ m ∧ PlainWord v := by
  induction bs with
  | nil => contradiction
  | cons b bs ih =>
    have hb := literal_word 2 b.toUInt16
    cases bs with
    | nil => exact ⟨[], literal 2 b.toUInt16, rfl, by simp, hb⟩
    | cons c bs =>
      obtain ⟨m, v, hmv, hm, hv⟩ := ih (by simp)
      have hs := semicolon_not_mem hb
      have hlist : byteList (b :: c :: bs) = literal 2 b.toUInt16 ++ [',', ' '] ++ m ++ v := by
        rw [byteList, hmv, List.append_assoc _ m v]
        simp
      have hfree : ';' ∉ literal 2 b.toUInt16 ++ [',', ' '] ++ m := by
        simp [hm, hs]
      exact ⟨_, v, hlist, hfree, hv⟩

theorem plainWord_byte : PlainWord ".byte".toList :=
  .of_all (by decide) (by decide)

theorem plainWord_word : PlainWord ".word".toList :=
  .of_all (by decide) (by decide)

theorem directive_byte (number : Nat) (s : List Char) :
    directive number (".byte".toList ++ ' ' :: s) = (arguments s).map fun arg =>
      match Literal.read? arg with
      | some (.number n) => .ok (.put (Literal.signed n))
      | _ => .error (.unknownDirective number (String.ofList (".byte".toList ++ ' ' :: s))) := by
  rw [directive, splitAtBlank_append (fun _ => plainWord_byte.not_blank) (by decide)]
  simp only [lower_word plainWord_byte]
  rfl

theorem directive_word (number : Nat) (s : List Char) :
    directive number (".word".toList ++ ' ' :: s) = (arguments s).map fun arg =>
      match Literal.read? arg with
      | some (.number n) => .ok (.putWord (UInt16.ofNat (n % 65536)))
      | some (.name s) => .ok (.putLabel (String.ofList s))
      | none => .error (.unknownDirective number (String.ofList (".word".toList ++ ' ' :: s))) := by
  rw [directive, splitAtBlank_append (fun _ => plainWord_word.not_blank) (by decide)]
  simp only [lower_word plainWord_word]
  rfl

theorem signed_byte (b : UInt8) : Literal.signed b.toUInt16.toNat = b.toNat := by
  have hlt : b.toNat < bitBound 31 := Nat.lt_trans b.toNat_lt (by decide)
  rw [UInt8.toNat_toUInt16, Literal.signed, if_pos hlt]

theorem readLine_bytes (number : Nat) {bs : List UInt8} (h : bs ≠ []) :
    readLine number (Datum.bytes bs).line = bs.map fun b => .ok (.put b.toNat) := by
  obtain ⟨m, v, hmv, hm, hv⟩ := byteList_ends h
  have hline : (Datum.bytes bs).line = ".byte".toList ++ ' ' :: byteList bs := rfl
  have hs : statement (".byte".toList ++ ' ' :: byteList bs) =
      ".byte".toList ++ ' ' :: byteList bs := by
    rw [hmv]
    exact statement_between (m := ' ' :: m) plainWord_byte (by simp [hm]) hv
  have hread : readLine number (".byte".toList ++ ' ' :: byteList bs) =
      directive number (".byte".toList ++ ' ' :: byteList bs) := readLine_directive number hs
  rw [hline, hread, directive_byte, arguments_byteList h, List.map_map]
  apply List.map_congr_left
  intro b _
  simp only [Function.comp_apply, read?_literal, signed_byte]

theorem readLine_label (number : Nat) {name : String} (h : isLowerIdent name.toList = true) :
    readLine number (Datum.label name).line = [.ok (.putLabel name)] := by
  obtain ⟨hi, hn⟩ := lowerIdent_word h
  have hline : (Datum.label name).line = ".word".toList ++ ' ' :: name.toList := rfl
  have hs : statement (".word".toList ++ ' ' :: name.toList) =
      ".word".toList ++ ' ' :: name.toList :=
    statement_between (m := [' ']) plainWord_word (by decide) hn
  have hread : readLine number (".word".toList ++ ' ' :: name.toList) =
      directive number (".word".toList ++ ' ' :: name.toList) := readLine_directive number hs
  have hargs : arguments name.toList = [name.toList] :=
    arguments_word hn (comma_not_mem (AddressingMode.ident_unmarked hi))
  rw [hline, hread, directive_word, hargs, List.map_singleton, read?_ident hi]
  simp only [String.ofList_toList]

/-- The line of an item orders the calls that append it again. -/
theorem readLine_line (number : Nat) {item : Item} (h : item.Listable) :
    readLine number item.line = item.calls.map .ok := by
  cases item with
  | instruction i => exact readLine_instruction_line number h
  | data d =>
    cases d with
    | bytes bs =>
      rw [Item.calls, List.map_map]
      exact readLine_bytes number h
    | label name => exact readLine_label number h
    | displacement name => exact h.elim
  | seek target => exact h.elim

end Source

end M6502
