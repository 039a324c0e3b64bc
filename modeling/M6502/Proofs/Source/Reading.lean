import M6502.Source.Line
import M6502.Proofs.InstructionSet.OperandForm
import M6502.Proofs.Text.Plain

/-!
# Reading lines of words

What a line says that consists of words as the listing writes them: a
mnemonic with or without an operand, or a directive with arguments between
commas. Each lemma follows one reader from the text to its orders.
-/

set_option autoImplicit false

namespace M6502

open Text

theorem Mnemonic.word_letters (m : Mnemonic) : PlainWord m.letters := by
  obtain ⟨hne, hl⟩ := letters_lower m m.mem_all
  constructor
  · exact hne
  · intro c hc
    have hlower := List.all_eq_true.1 hl c hc
    apply isPlain_of_isIdentChar
    · simp [isIdentChar, isAlphanum_eq, hlower]
    · cases hu : c.isUpper with
      | false => rfl
      | true =>
        have h1 := toNat_of_isLower hlower
        have h2 := toNat_of_isUpper hu
        omega

theorem Mnemonic.letters_cons (m : Mnemonic) : ∃ c s, m.letters = c :: s ∧ c ≠ '.' := by
  obtain ⟨hne, hl⟩ := letters_lower m m.mem_all
  cases hs : m.letters with
  | nil => exact absurd hs hne
  | cons c s =>
    rw [hs, List.all_cons, Bool.and_eq_true] at hl
    have hdot : c ≠ '.' := by
      rintro rfl
      exact absurd hl.1 (by decide)
    exact ⟨c, s, rfl, hdot⟩

namespace Source

theorem semicolon_not_mem {w : List Char} (hw : PlainWord w) : ';' ∉ w := by
  intro h
  exact (isPlain_iff.1 (hw.plain _ h)).2.1 rfl

theorem colon_not_mem {w : List Char} (hw : PlainWord w) : ':' ∉ w := by
  intro h
  exact (isPlain_iff.1 (hw.plain _ h)).2.2.1 rfl

theorem takeWhile_statement {s : List Char} (h : ';' ∉ s) :
    s.takeWhile (· != ';') = s := by
  have hpos : ∀ c ∈ s, (c != ';') = true := by
    intro c hc
    rw [bne_iff_ne]
    rintro rfl
    exact h hc
  have htake := @List.takeWhile_append_of_pos _ _ s [] hpos
  rw [List.append_nil] at htake
  rw [htake]
  exact List.append_nil s

theorem statement_word {w : List Char} (hw : PlainWord w) : statement w = w := by
  rw [statement, takeWhile_statement (semicolon_not_mem hw), trim_word hw]

theorem statement_between {w m v : List Char} (hw : PlainWord w) (hm : ';' ∉ m) (hv : PlainWord v) :
    statement (w ++ (m ++ v)) = w ++ (m ++ v) := by
  rw [statement, takeWhile_statement, trim_between hw m hv]
  simp only [List.mem_append, not_or]
  exact ⟨semicolon_not_mem hw, hm, semicolon_not_mem hv⟩

theorem readLine_instruction {number : Nat} {c : Char} {s : List Char}
    (hs : statement (c :: s) = c :: s) (hdot : c ≠ '.') (hcolon : ':' ∉ c :: s) :
    readLine number (c :: s) = [instruction number (c :: s)] := by
  have hlabel : splitLabel (c :: s) = (none, c :: s) := by
    rw [splitLabel, splitAtChar?_absent hcolon]
  have hread : readLine number (c :: s) = labelled number (c :: s) := by
    unfold readLine
    rw [hs]
    split
    · contradiction
    · rename_i h
      exact absurd (List.cons.inj h).1 hdot
    · rfl
  rw [hread, labelled, hlabel]
  rfl

theorem readLine_directive (number : Nat) {s : List Char}
    (hs : statement ('.' :: s) = '.' :: s) :
    readLine number ('.' :: s) = directive number ('.' :: s) := by
  rw [readLine, hs]
  rfl

theorem instruction_operand (number : Nat) {e : Encoding} {text : List Char} {operand : Operand}
    (hw : PlainWord text) (ha : e.mode.accepts text = true) (ho : operand? e text = some operand) :
    instruction number (e.mnemonic.letters ++ ' ' :: text) = .ok (.instruct e operand) := by
  have hl := e.mnemonic.word_letters
  rw [instruction, splitAtBlank_append (fun _ => hl.not_blank) (by decide)]
  simp only [filter_word hw, lower_word hw, lower_word hl, Encoding.select?_of_accepts ha, ho]

theorem instruction_bare (number : Nat) {e : Encoding} (hm : e.mode = .implied) :
    instruction number e.mnemonic.letters = .ok (.instruct e .none) := by
  have hl := e.mnemonic.word_letters
  have ha : e.mode.accepts [] = true := by
    rw [hm]
    rfl
  rw [instruction, splitAtBlank_word fun _ => hl.not_blank]
  have hempty : lower (([] : List Char).filter (!isBlank ·)) = [] := rfl
  simp only [hempty, lower_word hl, Encoding.select?_of_accepts ha]
  rfl

theorem arguments_append (s t : List Char) :
    arguments (s ++ ',' :: t) = arguments s ++ arguments t := by
  rw [arguments, splitOn_append, List.map_append, List.filter_append]
  rfl

theorem arguments_word {w : List Char} (hw : PlainWord w) (hc : ',' ∉ w) : arguments w = [w] := by
  rw [arguments, splitOn_absent hc, List.map_singleton, trim_word hw, lower_word hw]
  cases w with
  | nil => exact absurd rfl hw.ne_nil
  | cons c w => rfl

theorem arguments_blank (s : List Char) : arguments (' ' :: s) = arguments s := by
  rw [arguments, arguments, splitOn, if_neg (by decide)]
  cases hs : splitOn ',' s with
  | nil => exact absurd hs (splitOn_ne_nil ',' s)
  | cons piece pieces =>
    simp only [List.map_cons]
    rw [trim_blank (by decide)]

end Source

end M6502
