import M6502.Program.Listing
import M6502.Source.Literal
import M6502.Proofs.InstructionSet.Table
import M6502.Proofs.Text.Plain

/-!
# The modes that operand text can mean

Operand text is an argument with marks around it. The marks and the argument
can be told from the text, and so can the mode, except that a branch target
looks like an address; no mnemonic has both. At most one encoding of a
mnemonic therefore accepts a text.
-/

set_option autoImplicit false

namespace M6502

namespace Text

def isMark (c : Char) : Bool :=
  c == '#' || c == '(' || c == ',' || c == ')'

theorem isMark_cases {c : Char} (h : isMark c = true) :
    c = '#' ∨ c = '(' ∨ c = ',' ∨ c = ')' := by
  simpa [isMark, or_assoc] using h

def Unmarked (s : List Char) : Prop :=
  ∀ c ∈ s, isMark c = false

theorem unmarked_of_all {p : Char → Bool} (hp : ∀ c, isMark c = true → p c = false)
    {s : List Char} (h : s.all p = true) : Unmarked s := by
  intro c hc
  cases hm : isMark c with
  | false => rfl
  | true => exact absurd (List.all_eq_true.1 h c hc) (by rw [hp c hm]; decide)

theorem unmarked_cons {c : Char} {s : List Char} (hc : isMark c = false) (hs : Unmarked s) :
    Unmarked (c :: s) :=
  List.forall_mem_cons.2 ⟨hc, hs⟩

theorem cutEnd?_eq_some {e s t : List Char} : cutEnd? e s = some t ↔ s = t ++ e := by
  unfold cutEnd?
  constructor
  · intro h
    split at h
    · rename_i he
      obtain ⟨u, rfl⟩ := List.isSuffixOf_iff_suffix.1 he
      rw [← Option.some.inj h, List.length_append, Nat.add_sub_cancel, List.take_left]
    · contradiction
  · rintro rfl
    rw [if_pos (List.isSuffixOf_iff_suffix.2 (List.suffix_append t e)), List.length_append,
      Nat.add_sub_cancel, List.take_left]

theorem any_cutEnd?_iff {e s : List Char} {p : List Char → Bool} :
    (cutEnd? e s).any p = true ↔ ∃ t, p t = true ∧ s = t ++ e := by
  rw [Option.any_eq_true]
  simp only [cutEnd?_eq_some]
  exact ⟨fun ⟨t, hs, hp⟩ => ⟨t, hp, hs⟩, fun ⟨t, hp, hs⟩ => ⟨t, hs, hp⟩⟩

end Text

open Text

namespace AddressingMode

theorem insideParens_iff {close s : List Char} {p : List Char → Bool} :
    insideParens close p s = true ↔ ∃ t, p t = true ∧ s = '(' :: (t ++ close) := by
  unfold insideParens
  split
  · rw [any_cutEnd?_iff]
    simp
  · rename_i h
    refine iff_of_false (by decide) ?_
    rintro ⟨t, -, rfl⟩
    exact h _ rfl

def admits : AddressingMode → List Char → Bool
  | .implied, s => s.isEmpty
  | .immediate, s => isHexLiteral 1 2 s || isBinaryLiteral s || isDecimalLiteral s
  | .zeroPage, s | .zeroPageX, s | .zeroPageY, s | .indirectX, s | .indirectY, s => isNarrowTarget s
  | .absolute, s | .absoluteX, s | .absoluteY, s => isWideTarget s
  | .indirect, s => isPointer s
  | .relative, s => isIdent s || isHexLiteral 1 2 s

theorem accepts_iff (m : AddressingMode) (s : List Char) :
    m.accepts s = true ↔ ∃ arg, m.admits arg = true ∧ s = m.write arg := by
  cases m with
  | implied => simp [accepts, admits, write]
  | immediate =>
    unfold accepts
    split <;> simp_all [admits, write]
  | zeroPage => simp [accepts, admits, write]
  | zeroPageX => exact any_cutEnd?_iff
  | zeroPageY => exact any_cutEnd?_iff
  | absolute => simp [accepts, admits, write]
  | absoluteX => exact any_cutEnd?_iff
  | absoluteY => exact any_cutEnd?_iff
  | indirect => exact insideParens_iff
  | indirectX => exact insideParens_iff
  | indirectY => exact insideParens_iff
  | relative => simp [accepts, admits, write]

theorem hexLiteral_shape {least most : Nat} {s : List Char} (h : isHexLiteral least most s = true) :
    ∃ digits, s = '$' :: digits ∧ least ≤ digits.length ∧ digits.length ≤ most ∧
      digits.all isHexDigit = true := by
  unfold isHexLiteral at h
  split at h
  · rename_i digits
    simp only [Bool.and_eq_true, decide_eq_true_eq] at h
    exact ⟨digits, rfl, h.1.1, h.1.2, h.2⟩
  · contradiction

theorem hexLiteral_unmarked {least most : Nat} {s : List Char}
    (h : isHexLiteral least most s = true) : Unmarked s := by
  obtain ⟨digits, rfl, -, -, hd⟩ := hexLiteral_shape h
  apply unmarked_cons (by decide)
  apply unmarked_of_all _ hd
  intro c hc
  rcases isMark_cases hc with rfl | rfl | rfl | rfl <;> decide

theorem ident_unmarked {s : List Char} (h : isIdent s = true) : Unmarked s := by
  obtain ⟨_, _, -, -, hall⟩ := isIdent_chars h
  apply unmarked_of_all _ hall
  intro c hc
  rcases isMark_cases hc with rfl | rfl | rfl | rfl <;> decide

theorem binaryLiteral_unmarked {s : List Char} (h : isBinaryLiteral s = true) : Unmarked s := by
  unfold isBinaryLiteral at h
  split at h
  · apply unmarked_cons (by decide)
    apply unmarked_of_all _ (Bool.and_eq_true_iff.1 h).2
    intro c hc
    rcases isMark_cases hc with rfl | rfl | rfl | rfl <;> decide
  · contradiction

theorem decimalLiteral_unmarked {s : List Char} (h : isDecimalLiteral s = true) : Unmarked s := by
  apply unmarked_of_all _ (Bool.and_eq_true_iff.1 h).2
  intro c hc
  rcases isMark_cases hc with rfl | rfl | rfl | rfl <;> decide

theorem admits_unmarked {m : AddressingMode} {arg : List Char} (h : m.admits arg = true) :
    Unmarked arg := by
  have hwide (hw : isWideTarget arg = true) : Unmarked arg :=
    (Bool.or_eq_true_iff.1 hw).elim ident_unmarked hexLiteral_unmarked
  cases m with
  | implied =>
    rw [List.isEmpty_iff.1 h]
    exact fun _ hc => absurd hc List.not_mem_nil
  | immediate =>
    rcases Bool.or_eq_true_iff.1 h with h | h
    · exact (Bool.or_eq_true_iff.1 h).elim hexLiteral_unmarked binaryLiteral_unmarked
    · exact decimalLiteral_unmarked h
  | zeroPage => exact hexLiteral_unmarked h
  | zeroPageX => exact hexLiteral_unmarked h
  | zeroPageY => exact hexLiteral_unmarked h
  | absolute => exact hwide h
  | absoluteX => exact hwide h
  | absoluteY => exact hwide h
  | indirect => exact (Bool.or_eq_true_iff.1 h).elim ident_unmarked hexLiteral_unmarked
  | indirectX => exact hexLiteral_unmarked h
  | indirectY => exact hexLiteral_unmarked h
  | relative => exact (Bool.or_eq_true_iff.1 h).elim ident_unmarked hexLiteral_unmarked

def opening : AddressingMode → List Char
  | .immediate => ['#']
  | .indirect | .indirectX | .indirectY => ['(']
  | _ => []

def closing : AddressingMode → List Char
  | .zeroPageX | .absoluteX => [',', 'x']
  | .zeroPageY | .absoluteY => [',', 'y']
  | .indirect => [')']
  | .indirectX => [',', 'x', ')']
  | .indirectY => [')', ',', 'y']
  | _ => []

theorem write_eq (m : AddressingMode) (arg : List Char) :
    m.write arg = m.opening ++ (arg ++ m.closing) := by
  cases m <;> simp [write, opening, closing]

theorem opening_marks (m : AddressingMode) : ∀ c ∈ m.opening, (c == '#' || c == '(') = true := by
  rw [← List.all_eq_true]
  cases m <;> rfl

theorem dropWhile_opening {m : AddressingMode} {arg : List Char} (h : Unmarked arg) :
    (arg ++ m.closing).dropWhile (fun c => c == '#' || c == '(') = arg ++ m.closing := by
  cases arg with
  | nil => cases m <;> rfl
  | cons c arg =>
    have hc := (List.forall_mem_cons.1 h).1
    simp only [isMark, Bool.or_eq_false_iff] at hc
    simp [hc.1.1.1, hc.1.1.2]

/-- Reading an operand finds the argument that was written. -/
theorem core_write {m : AddressingMode} {arg : List Char} (h : Unmarked arg) :
    Literal.core (m.write arg) = arg := by
  have hend : m.closing.takeWhile (fun c => c != ',' && c != ')') = [] := by
    cases m <;> rfl
  have hbody : ∀ c ∈ arg, (c != ',' && c != ')') = true := by
    intro c hc
    have hm := h c hc
    simp only [isMark, Bool.or_eq_false_iff] at hm
    simp [bne, hm.1.2, hm.2]
  rw [write_eq, Literal.core, List.dropWhile_append_of_pos m.opening_marks, dropWhile_opening h,
    List.takeWhile_append_of_pos hbody, hend, List.append_nil]

theorem takeWhile_write {m : AddressingMode} {arg : List Char} (h : Unmarked arg)
    (hne : arg ≠ []) : (m.write arg).takeWhile isMark = m.opening := by
  have hmarks : ∀ c ∈ m.opening, isMark c = true := by
    rw [← List.all_eq_true]
    cases m <;> rfl
  cases arg with
  | nil => contradiction
  | cons c arg =>
    have hc := (List.forall_mem_cons.1 h).1
    rw [write_eq, List.takeWhile_append_of_pos hmarks, List.cons_append, List.takeWhile_cons, hc]
    exact List.append_nil _

theorem not_wide_of_narrow {s : List Char} (h : isNarrowTarget s = true) :
    isWideTarget s = false := by
  obtain ⟨digits, rfl, hlow, hhigh, hd⟩ := hexLiteral_shape h
  have hlen : ¬3 ≤ digits.length := by omega
  simp [isWideTarget, isHexLiteral, hlen, isIdent, isIdentStart]

def ofMarks (opening closing arg : List Char) : AddressingMode :=
  match opening, closing with
  | ['#'], _ => .immediate
  | ['('], [')'] => .indirect
  | ['('], [',', 'x', ')'] => .indirectX
  | ['('], _ => .indirectY
  | _, [',', 'x'] => if isWideTarget arg then .absoluteX else .zeroPageX
  | _, [',', 'y'] => if isWideTarget arg then .absoluteY else .zeroPageY
  | _, _ => if arg.isEmpty then .implied else if isWideTarget arg then .absolute else .zeroPage

theorem admits_ne_nil {m : AddressingMode} {arg : List Char} (hm : m ≠ .implied)
    (h : m.admits arg = true) : arg ≠ [] := by
  rintro rfl
  cases m <;> contradiction

theorem ofMarks_eq {m : AddressingMode} {arg : List Char} (hm : m ≠ .relative)
    (h : m.admits arg = true) : ofMarks m.opening m.closing arg = m := by
  cases m with
  | implied =>
    rw [List.isEmpty_iff.1 h]
    rfl
  | immediate => rfl
  | zeroPage =>
    have hne := admits_ne_nil (by decide) h
    simp [ofMarks, opening, closing, not_wide_of_narrow h, hne]
  | zeroPageX => simp [ofMarks, opening, closing, not_wide_of_narrow h]
  | zeroPageY => simp [ofMarks, opening, closing, not_wide_of_narrow h]
  | absolute =>
    have hne := admits_ne_nil (by decide) h
    have hw : isWideTarget arg = true := h
    simp [ofMarks, opening, closing, hw, hne]
  | absoluteX =>
    have hw : isWideTarget arg = true := h
    simp [ofMarks, opening, closing, hw]
  | absoluteY =>
    have hw : isWideTarget arg = true := h
    simp [ofMarks, opening, closing, hw]
  | indirect => rfl
  | indirectX => rfl
  | indirectY => rfl
  | relative => contradiction

/-- A text has one mode, unless one of its modes is that of a branch. -/
theorem eq_of_accepts {m n : AddressingMode} {s : List Char} (hm : m ≠ .relative)
    (hn : n ≠ .relative) (hs : m.accepts s = true) (ht : n.accepts s = true) : m = n := by
  obtain ⟨a, ha, hwa⟩ := (m.accepts_iff s).1 hs
  obtain ⟨b, hb, hwb⟩ := (n.accepts_iff s).1 ht
  have hua := admits_unmarked ha
  have hwrite : m.write a = n.write b := hwa.symm.trans hwb
  have hab : a = b := by
    rw [← core_write (m := m) hua, hwrite, core_write (admits_unmarked hb)]
  subst hab
  by_cases hne : a = []
  · subst hne
    by_cases hi : m = .implied
    · by_cases hj : n = .implied
      · exact hi.trans hj.symm
      · exact absurd rfl (admits_ne_nil hj hb)
    · exact absurd rfl (admits_ne_nil hi ha)
  · have hopen : m.opening = n.opening := by
      rw [← takeWhile_write hua hne, hwrite, takeWhile_write hua hne]
    have hclose : m.closing = n.closing := by
      rw [write_eq, write_eq, hopen] at hwrite
      exact List.append_cancel_left (List.append_cancel_left hwrite)
    rw [← ofMarks_eq hm ha, hopen, hclose, ofMarks_eq hn hb]

end AddressingMode

namespace Encoding

/-- At most one encoding of a mnemonic accepts a text. -/
theorem eq_of_accepts {d e : Encoding} {s : List Char} (hn : d.mnemonic = e.mnemonic)
    (hd : d.mode.accepts s = true) (he : e.mode.accepts s = true) : d = e := by
  have hrel : d.mode = .relative ↔ e.mode = .relative := by
    rw [d.relative_iff, e.relative_iff, hn]
  apply eq_of_parts hn
  by_cases h : d.mode = .relative
  · exact h.trans (hrel.1 h).symm
  · exact AddressingMode.eq_of_accepts h (fun h' => h (hrel.2 h')) hd he

theorem select?_of_accepts {e : Encoding} {s : List Char} (h : e.mode.accepts s = true) :
    select? e.mnemonic.letters s = some e := by
  apply find?_of_unique e.mem_all
  · rw [h, Bool.and_true]
    exact beq_self_eq_true _
  · intro d _ hd
    obtain ⟨hl, ha⟩ := Bool.and_eq_true_iff.1 hd
    exact eq_of_accepts (Mnemonic.letters_injective (eq_of_beq hl)) ha h

theorem accepts_of_select? {e : Encoding} {letters s : List Char}
    (h : select? letters s = some e) : e.mode.accepts s = true := by
  have hp := @List.find?_some _ _ e all h
  exact (Bool.and_eq_true_iff.1 hp).2

end Encoding

end M6502
