import M6502.Proofs.Source.Meaning
import M6502.Proofs.Text.Folding
import Mathlib.Logic.Relation

/-!
# The layout of source text

Letters may change case, blanks may stand at either end of a line and within
the operand of an instruction, and comments may follow: the orders of a line
stay the same, except for the text that an error quotes. So does what follows
from the orders of all lines.
-/

set_option autoImplicit false

namespace M6502

open Text

def ProgramError.unquoted : ProgramError → ProgramError
  | .noMatchingInstruction line _ => .noMatchingInstruction line ""
  | .unknownDirective line _ => .unknownDirective line ""
  | e => e

theorem ProgramError.unquoted_unquoted (e : ProgramError) : e.unquoted.unquoted = e.unquoted := by
  cases e <;> rfl

def Order.unquoted (order : Order) : Order :=
  order.mapError ProgramError.unquoted

theorem Program.follow_unquoted (p : Program) (orders : List Order) :
    (p.follow (orders.map Order.unquoted)).mapError ProgramError.unquoted =
      (p.follow orders).mapError ProgramError.unquoted := by
  induction orders generalizing p with
  | nil => rfl
  | cons order orders ih =>
    cases order with
    | error e => exact congrArg Except.error e.unquoted_unquoted
    | ok c =>
      have hcall : Order.unquoted (.ok c) = .ok c := rfl
      rw [List.map_cons, hcall, follow, follow]
      cases c.apply p with
      | ok q => exact ih q
      | error e => rfl

namespace Source

def Alike (l l' : List Char) : Prop :=
  ∀ number, (readLine number l).map Order.unquoted = (readLine number l').map Order.unquoted

theorem Alike.of_statement {l l' : List Char} (h : statement l = statement l') : Alike l l' := by
  intro number
  rw [readLine, readLine, h]

theorem instruction_eq (number : Nat) (s : List Char) :
    instruction number s =
      match Encoding.select? (mnemonicText s) (operandText s) with
      | none => .error (.noMatchingInstruction number (String.ofList s))
      | some e =>
        match operand? e (operandText s) with
        | none => .error (.noMatchingInstruction number (String.ofList s))
        | some operand => .ok (.instruct e operand) :=
  rfl

theorem instruction_congr (number : Nat) {s s' : List Char} (hm : mnemonicText s = mnemonicText s')
    (ho : operandText s = operandText s') :
    (instruction number s).unquoted = (instruction number s').unquoted := by
  rw [instruction_eq, instruction_eq, hm, ho]
  split
  · rfl
  · split <;> rfl

theorem directive_congr (number : Nat) {s s' : List Char}
    (hname : mnemonicText s = mnemonicText s')
    (hargs : arguments (splitAtBlank s).2 = arguments (splitAtBlank s').2) :
    (directive number s).map Order.unquoted = (directive number s').map Order.unquoted := by
  rw [mnemonicText, mnemonicText] at hname
  unfold directive
  dsimp only
  rw [hname, hargs]
  generalize lower (splitAtBlank s').1 = name
  generalize arguments (splitAtBlank s').2 = args
  split
  · split
    · split <;> rfl
    · rfl
  · rw [List.map_map, List.map_map]
    refine List.map_congr_left fun arg _ => ?_
    simp only [Function.comp_apply]
    split <;> rfl
  · rw [List.map_map, List.map_map]
    refine List.map_congr_left fun arg _ => ?_
    simp only [Function.comp_apply]
    split <;> rfl
  · rfl

theorem labelled_congr (number : Nat) {s s' rest rest' : List Char} {label : Option String}
    (h : splitLabel s = (label, rest)) (h' : splitLabel s' = (label, rest'))
    (hempty : rest.isEmpty = rest'.isEmpty) (hm : mnemonicText rest = mnemonicText rest')
    (ho : operandText rest = operandText rest') :
    (labelled number s).map Order.unquoted = (labelled number s').map Order.unquoted := by
  rw [labelled, labelled, h, h']
  dsimp only
  rw [hempty]
  split
  · rfl
  · rw [List.map_append, List.map_append, List.map_singleton, List.map_singleton,
      instruction_congr number hm ho]

theorem readLine_dot (number : Nat) {line s : List Char} (h : statement line = '.' :: s) :
    readLine number line = directive number ('.' :: s) := by
  rw [readLine, h]
  rfl

theorem readLine_labelled (number : Nat) {line s : List Char} {c : Char}
    (h : statement line = c :: s) (hc : c ≠ '.') :
    readLine number line = labelled number (c :: s) := by
  unfold readLine
  rw [h]
  split
  · contradiction
  · rename_i heq
    exact absurd (List.cons.inj heq).1 hc
  · rfl

theorem mnemonicText_lower (s : List Char) : mnemonicText (lower s) = mnemonicText s := by
  rw [mnemonicText, mnemonicText, splitAtBlank_lower, lower_lower]

theorem operandText_lower (s : List Char) : operandText (lower s) = operandText s := by
  rw [operandText, operandText, splitAtBlank_lower, filter_lower not_isBlank_toLower, lower_lower]

theorem arguments_folded (s : List Char) : arguments (lower s) = arguments s := by
  rw [arguments, arguments, splitOn_lower (by decide), List.map_map]
  simp only [Function.comp_def, trim_lower, lower_lower]

theorem statement_lower (line : List Char) : statement (lower line) = lower (statement line) := by
  have hsemicolon (c : Char) : (c.toLower != ';') = (c != ';') := by
    rw [Bool.eq_iff_iff, bne_iff_ne, bne_iff_ne, ne_eq, toLower_eq_iff (by decide)]
  rw [statement, statement, takeWhile_lower hsemicolon, trim_lower]

theorem splitLabel_lower (s : List Char) :
    splitLabel (lower s) = ((splitLabel s).1, lower (splitLabel s).2) := by
  rw [splitLabel, splitLabel, splitAtChar?_lower (by decide)]
  cases splitAtChar? ':' s with
  | none => rfl
  | some p =>
    simp only [Option.map_some, trim_lower, isIdent_lower, lower_lower]
    split <;> rfl

theorem alike_lower (line : List Char) : Alike (lower line) line := by
  intro number
  have hlower := statement_lower line
  cases hs : statement line with
  | nil =>
    rw [hs] at hlower
    exact (Alike.of_statement (hlower.trans hs.symm)) number
  | cons c s =>
    rw [hs] at hlower
    by_cases hc : c = '.'
    · subst hc
      rw [readLine_dot number hlower, readLine_dot number hs]
      refine directive_congr number (mnemonicText_lower ('.' :: s)) ?_
      exact (congrArg (fun p => arguments p.2) (splitAtBlank_lower ('.' :: s))).trans
        (arguments_folded _)
    · have hfold : c.toLower ≠ '.' := mt (toLower_eq_iff (by decide) c).1 hc
      rw [readLine_labelled number hlower hfold, readLine_labelled number hs hc]
      have hlabel : splitLabel (c :: s) = ((splitLabel (c :: s)).1, (splitLabel (c :: s)).2) := rfl
      exact labelled_congr number (splitLabel_lower (c :: s)) hlabel List.isEmpty_map
        (mnemonicText_lower _) (operandText_lower _)

def uncommented (line : List Char) : List Char :=
  line.takeWhile (· != ';')

theorem uncommented_append_of_mem {s : List Char} (h : ';' ∈ s) (t : List Char) :
    uncommented (s ++ t) = uncommented s := by
  rw [uncommented, uncommented, List.takeWhile_append, if_neg]
  intro hlength
  have hself : s.takeWhile (· != ';') = s := (List.takeWhile_prefix _).eq_of_length hlength
  rw [← hself] at h
  exact absurd (List.mem_takeWhile_imp h) (by decide)

theorem uncommented_append {s : List Char} (h : ';' ∉ s) (t : List Char) :
    uncommented (s ++ t) = s ++ uncommented t := by
  refine List.takeWhile_append_of_pos fun c hc => ?_
  rw [bne_iff_ne]
  rintro rfl
  exact h hc

theorem semicolon_not_mem_blanks {b : List Char} (hb : Blanks b) : ';' ∉ b :=
  fun h => absurd (hb _ h) (by decide)

theorem statement_front {b : List Char} (hb : Blanks b) (line : List Char) :
    statement (b ++ line) = statement line := by
  have hcut := uncommented_append (semicolon_not_mem_blanks hb) line
  exact (congrArg trim hcut).trans (trim_blanks_append hb _)

theorem statement_end {b : List Char} (hb : Blanks b) (line : List Char) :
    statement (line ++ b) = statement line := by
  by_cases h : ';' ∈ line
  · exact congrArg trim (uncommented_append_of_mem h b)
  · have hcut := uncommented_append h b
    have hblanks := takeWhile_statement (semicolon_not_mem_blanks hb)
    have hline := takeWhile_statement h
    rw [uncommented, uncommented, hblanks] at hcut
    rw [statement, statement, hcut, hline, trim_append_blanks hb]

theorem statement_comment (line comment : List Char) :
    statement (line ++ ';' :: comment) = statement line := by
  by_cases h : ';' ∈ line
  · exact congrArg trim (uncommented_append_of_mem h _)
  · have hcut := uncommented_append h (';' :: comment)
    have hline := takeWhile_statement h
    have hnone : uncommented (';' :: comment) = [] := rfl
    rw [hnone, List.append_nil] at hcut
    exact congrArg trim (hcut.trans hline.symm)

def Labelled (s : List Char) : Prop :=
  ∃ head rest, s = head ++ ':' :: rest ∧ isIdent (trim head) = true

theorem Labelled.append {s : List Char} (h : Labelled s) (t : List Char) : Labelled (s ++ t) := by
  obtain ⟨head, rest, rfl, hident⟩ := h
  exact ⟨head, rest ++ t, by rw [List.append_assoc, List.cons_append], hident⟩

theorem splitLabel_none {s : List Char} (h : ¬ Labelled s) : splitLabel s = (none, s) := by
  rw [splitLabel]
  cases hs : splitAtChar? ':' s with
  | none => rfl
  | some p =>
    have hident : ¬ isIdent (trim p.1) = true := fun hident =>
      h ⟨p.1, p.2, eq_of_splitAtChar? hs, hident⟩
    exact if_neg hident

theorem not_blank_of_ident {s : List Char} (h : isIdent s = true) : ∀ c ∈ s, isBlank c = false := by
  obtain ⟨-, -, -, -, hall⟩ := isIdent_chars h
  intro c hc
  have hchar := List.all_eq_true.1 hall c hc
  rw [← isBlank_toLower]
  exact (isPlain_iff.1 (isPlain_of_isIdentChar ((isIdentChar_toLower c).trans hchar)
    (toLower_not_upper c))).1

theorem colon_not_mem_ident {s : List Char} (h : isIdent s = true) : ':' ∉ s := by
  obtain ⟨-, -, -, -, hall⟩ := isIdent_chars h
  exact fun hc => absurd (List.all_eq_true.1 hall _ hc) (by decide)

/-- A label and what follows it, trimmed as a whole and in parts. -/
theorem splitLabel_labelled {head : List Char} (h : isIdent (trim head) = true) (rest : List Char) :
    ∃ c s, trim (head ++ ':' :: rest) = c :: s ∧ c ≠ '.' ∧
      splitLabel (c :: s) = (some (String.ofList (lower (trim head))), trim rest) := by
  have htrim := @trim_append_cons ':' (by decide) head rest
  have hcolon : ':' ∉ head.dropWhile isBlank := by
    intro hc
    have hmem := mem_trim hc (by decide)
    rw [trim_dropWhile] at hmem
    exact colon_not_mem_ident h hmem
  have hsplit := splitAtChar?_append hcolon (trimEnd rest)
  cases hd : head.dropWhile isBlank with
  | nil =>
    rw [← trim_dropWhile, hd] at h
    contradiction
  | cons c s =>
    rw [hd] at htrim hsplit
    refine ⟨c, s ++ ':' :: trimEnd rest, htrim, ?_, ?_⟩
    · rintro rfl
      have hmem := @mem_trim ('.' :: s) '.' List.mem_cons_self (by decide)
      rw [← hd, trim_dropWhile] at hmem
      obtain ⟨-, -, -, -, hall⟩ := isIdent_chars h
      exact absurd (List.all_eq_true.1 hall _ hmem) (by decide)
    · rw [List.cons_append] at hsplit
      rw [splitLabel, hsplit]
      simp only [← hd, trim_dropWhile, h, trim_trimEnd]
      rfl

section Words

variable {w : List Char} {c : Char} (hw : ∀ d ∈ w, isBlank d = false) (hc : isBlank c = true)
include hw hc

theorem texts_of_word (s : List Char) :
    mnemonicText (w ++ trimEnd (c :: s)) = lower w ∧
      operandText (w ++ trimEnd (c :: s)) = lower (s.filter (!isBlank ·)) := by
  have hfilter : (trimEnd (c :: s)).filter (!isBlank ·) = s.filter (!isBlank ·) := by
    rw [filter_trimEnd, List.filter_cons_of_neg (by rw [hc]; decide)]
  rw [mnemonicText, operandText, ← hfilter]
  obtain ⟨b, -, hs⟩ := exists_trimEnd (c :: s)
  cases ht : trimEnd (c :: s) with
  | nil =>
    rw [List.append_nil, splitAtBlank_word hw]
    exact ⟨rfl, rfl⟩
  | cons d t =>
    rw [ht, List.cons_append, List.cons.injEq] at hs
    rw [← hs.1, splitAtBlank_append hw hc, List.filter_cons_of_neg (by rw [hc]; decide)]
    exact ⟨rfl, rfl⟩

variable (hne : w ≠ [])
include hne

theorem ident_trim_iff (s : List Char) :
    isIdent (trim (w ++ c :: s)) = true ↔ isIdent w = true ∧ Blanks s := by
  constructor
  · intro h
    rw [trim_word_append hne hw] at h
    obtain ⟨b, hb, hs⟩ := exists_trimEnd (c :: s)
    have hnone : trimEnd (c :: s) = [] := by
      cases ht : trimEnd (c :: s) with
      | nil => rfl
      | cons d t =>
        rw [ht, List.cons_append, List.cons.injEq] at hs
        have hd := not_blank_of_ident h d (by rw [ht]; simp)
        rw [← hs.1, hc] at hd
        contradiction
    rw [hnone, List.append_nil] at h
    rw [hnone, List.nil_append] at hs
    rw [← hs] at hb
    exact ⟨h, (List.forall_mem_cons.1 hb).2⟩
  · rintro ⟨h, hs⟩
    have hword := trim_word_append hne hw []
    have hend : trimEnd [] = [] := rfl
    rw [hend, List.append_nil] at hword
    rwa [trim_append_blanks (List.forall_mem_cons.2 ⟨hc, hs⟩), hword]

/-- Whether a word begins a label is seen without blanks. -/
theorem labelled_word_iff (s : List Char) :
    Labelled (w ++ c :: s) ↔
      Labelled w ∨ isIdent w = true ∧ (s.filter (!isBlank ·)).head? = some ':' := by
  have hcolon : c ≠ ':' := by
    rintro rfl
    contradiction
  constructor
  · rintro ⟨head, rest, heq, hident⟩
    rcases List.append_eq_append_iff.1 heq with ⟨back, rfl, hback⟩ | ⟨back, rfl, hback⟩
    · cases back with
      | nil => exact absurd (List.cons.inj hback).1 hcolon
      | cons d back =>
        rw [List.cons_append, List.cons.injEq] at hback
        obtain ⟨rfl, rfl⟩ := hback
        obtain ⟨hw, hblanks⟩ := (ident_trim_iff hw hc hne back).1 hident
        refine .inr ⟨hw, ?_⟩
        rw [List.filter_append, filter_blanks hblanks]
        rfl
    · cases back with
      | nil => exact absurd (List.cons.inj hback).1.symm hcolon
      | cons d back =>
        obtain ⟨rfl, -⟩ := List.cons.inj hback
        exact .inl ⟨head, back, rfl, hident⟩
  · rintro (h | ⟨hident, hhead⟩)
    · exact h.append _
    · obtain ⟨rest, hrest⟩ := List.head?_eq_some_iff.1 hhead
      obtain ⟨front, back, rfl, hfront, -, -⟩ := List.filter_eq_cons_iff.1 hrest
      have hblanks : Blanks front := by
        intro d hd
        have hd := hfront d hd
        simpa using hd
      exact ⟨w ++ c :: front, back, by simp, (ident_trim_iff hw hc hne front).2 ⟨hident, hblanks⟩⟩

end Words

/-- The front of a line up to the operand of its instruction, with or without a label, and what
follows it. A line without a label begins with the mnemonic, and is no directive. -/
inductive Leads : List Char → List Char → Prop
  | bare {gap w operand : List Char} {c : Char} (hgap : Blanks gap) (hne : w ≠ [])
      (hw : ∀ d ∈ w, isBlank d = false) (hdot : w.head? ≠ some '.') (hc : isBlank c = true)
      (hlabel : ¬ Labelled (w ++ c :: operand)) : Leads (gap ++ (w ++ [c])) operand
  | labelled {head gap w operand : List Char} {c : Char} (hident : isIdent (trim head) = true)
      (hgap : Blanks gap) (hne : w ≠ []) (hw : ∀ d ∈ w, isBlank d = false)
      (hc : isBlank c = true) : Leads (head ++ ':' :: (gap ++ (w ++ [c]))) operand

theorem trim_lead {gap w : List Char} (hgap : Blanks gap) (hne : w ≠ [])
    (hw : ∀ d ∈ w, isBlank d = false) (c : Char) (t : List Char) :
    trim (gap ++ (w ++ [c]) ++ t) = w ++ trimEnd (c :: t) := by
  rw [List.append_assoc, trim_blanks_append hgap, List.append_assoc, trim_word_append hne hw,
    List.singleton_append]

theorem Leads.of_append {lead s t : List Char} (h : Leads lead (s ++ t)) : Leads lead s := by
  cases h with
  | bare hgap hne hw hdot hc hlabel =>
    refine .bare hgap hne hw hdot hc fun hs => hlabel ?_
    have happend := hs.append t
    rwa [List.append_assoc, List.cons_append] at happend
  | labelled hident hgap hne hw hc => exact .labelled hident hgap hne hw hc

/-- The instruction that a front leads to, for all operands that differ in blanks only. -/
theorem Leads.readLine_eq {lead s : List Char} (h : Leads lead s) :
    ∃ (label : Option String) (w : List Char) (c : Char),
      (∀ d ∈ w, isBlank d = false) ∧ isBlank c = true ∧
      ∀ (line t : List Char), statement line = trim (lead ++ t) →
        t.filter (!isBlank ·) = s.filter (!isBlank ·) → ∀ number,
          readLine number line = (label.toList.map fun name => .ok (.setLabel name)) ++
            [instruction number (w ++ trimEnd (c :: t))] := by
  cases h with
  | @bare gap w _ c hgap hne hw hdot hc hlabel =>
    refine ⟨none, w, c, hw, hc, fun line t hline hfilter number => ?_⟩
    have hnone : ¬ Labelled (w ++ trimEnd (c :: t)) := by
      obtain ⟨b, -, ht⟩ := exists_trimEnd (c :: t)
      intro hs
      have happend := hs.append b
      rw [List.append_assoc, ← ht, labelled_word_iff hw hc hne, hfilter,
        ← labelled_word_iff hw hc hne] at happend
      exact hlabel happend
    have hsplit := splitLabel_none hnone
    obtain ⟨d, w, rfl⟩ := List.exists_cons_of_ne_nil hne
    have hd : d ≠ '.' := by
      rintro rfl
      exact hdot rfl
    rw [trim_lead hgap hne hw, List.cons_append] at hline
    rw [List.cons_append] at hsplit
    rw [readLine_labelled number hline hd, Source.labelled, hsplit]
    rfl
  | @labelled head gap w _ c hident hgap hne hw hc =>
    refine ⟨some (String.ofList (lower (trim head))), w, c, hw, hc, fun line t hline _ number => ?_⟩
    obtain ⟨d, rest, hstart, hd, hsplit⟩ := splitLabel_labelled hident (gap ++ (w ++ [c]) ++ t)
    have hline : statement line = d :: rest := by
      rw [hline, ← hstart, List.append_assoc, List.cons_append]
    rw [trim_lead hgap hne hw] at hsplit
    rw [readLine_labelled number hline hd, Source.labelled, hsplit]
    obtain ⟨d, w, rfl⟩ := List.exists_cons_of_ne_nil hne
    rfl

theorem alike_spread {lead s t b : List Char} (h : Leads lead (s ++ t)) (hb : Blanks b) :
    Alike (lead ++ (s ++ t)) (lead ++ (s ++ (b ++ t))) := by
  by_cases hcomment : ';' ∈ lead ++ s
  · refine .of_statement ?_
    rw [← List.append_assoc lead s, ← List.append_assoc lead s]
    exact congrArg trim ((uncommented_append_of_mem hcomment _).trans
      (uncommented_append_of_mem hcomment _).symm)
  · intro number
    have hcut : t = uncommented t ++ t.dropWhile (· != ';') :=
      List.takeWhile_append_dropWhile.symm
    rw [hcut, ← List.append_assoc] at h
    obtain ⟨label, w, c, hw, hc, hread⟩ := h.of_append.readLine_eq
    have hfilter : (s ++ (b ++ uncommented t)).filter (!isBlank ·) =
        (s ++ uncommented t).filter (!isBlank ·) := by
      rw [List.filter_append, List.filter_append, List.filter_append, filter_blanks hb]
      rfl
    have hnarrow : statement (lead ++ (s ++ t)) = trim (lead ++ (s ++ uncommented t)) := by
      rw [← List.append_assoc lead s, ← List.append_assoc lead s]
      exact congrArg trim (uncommented_append hcomment t)
    have hwide : statement (lead ++ (s ++ (b ++ t))) =
        trim (lead ++ (s ++ (b ++ uncommented t))) := by
      rw [← List.append_assoc lead s, ← List.append_assoc lead s]
      refine congrArg trim ((uncommented_append hcomment _).trans ?_)
      rw [uncommented_append (semicolon_not_mem_blanks hb)]
    rw [hread _ _ hnarrow rfl number, hread _ _ hwide hfilter number, List.map_append,
      List.map_append, List.map_singleton, List.map_singleton]
    obtain ⟨hm, ho⟩ := texts_of_word hw hc (s ++ uncommented t)
    obtain ⟨hm', ho'⟩ := texts_of_word hw hc (s ++ (b ++ uncommented t))
    rw [hfilter] at ho'
    rw [instruction_congr number (hm.trans hm'.symm) (ho.trans ho'.symm)]

/-- A change to the layout of a line: the case of its letters, blanks at either end, a comment
behind it, or blanks within the operand of its instruction. -/
inductive Edit : List Char → List Char → Prop
  | recase {l l' : List Char} (h : lower l = lower l') : Edit l l'
  | front {b : List Char} (hb : Blanks b) (l : List Char) : Edit l (b ++ l)
  | back {b : List Char} (hb : Blanks b) (l : List Char) : Edit l (l ++ b)
  | comment (l comment : List Char) : Edit l (l ++ ';' :: comment)
  | spread {lead s t b : List Char} (h : Leads lead (s ++ t)) (hb : Blanks b) :
      Edit (lead ++ (s ++ t)) (lead ++ (s ++ (b ++ t)))

theorem Edit.alike {l l' : List Char} (h : Edit l l') : Alike l l' := by
  cases h with
  | recase hlower =>
    intro number
    rw [← alike_lower l, hlower, alike_lower l']
  | front hb l => exact .of_statement (statement_front hb l).symm
  | back hb l => exact .of_statement (statement_end hb l).symm
  | comment l comment => exact .of_statement (statement_comment l comment).symm
  | spread hlead hb => exact alike_spread hlead hb

theorem alike_of_edits {l l' : List Char} (h : Relation.ReflTransGen Edit l l') : Alike l l' := by
  induction h with
  | refl => exact fun _ => rfl
  | tail _ hedit ih => exact fun number => (ih number).trans (hedit.alike number)

theorem parseLines_alike (size : Nat) {lines lines' : List (List Char)}
    (h : List.Forall₂ Alike lines lines') :
    (parseLines size lines).mapError ProgramError.unquoted =
      (parseLines size lines').mapError ProgramError.unquoted := by
  have horders (first : Nat) :
      (readFrom first lines).map Order.unquoted = (readFrom first lines').map Order.unquoted := by
    induction h generalizing first with
    | nil => rfl
    | cons hline _ ih => rw [readFrom, readFrom, List.map_append, List.map_append, hline, ih]
  rw [parseLines, parseLines, ← Program.follow_unquoted, horders, Program.follow_unquoted]

/-- Text that was joined from lines splits into them, with what was in front of the separator. -/
theorem splitOn_joined {x : Char} {e : List Char} (he : x ∉ e) (line : List Char)
    (lines : List (List Char)) (h : ∀ l ∈ line :: lines, x ∉ l) :
    List.Forall₂ (fun piece l => piece = l ∨ piece = l ++ e)
      (splitOn x ((e ++ [x]).intercalate (line :: lines))) (line :: lines) := by
  induction lines generalizing line with
  | nil =>
    rw [List.intercalate_singleton, splitOn_absent (h line List.mem_cons_self)]
    exact .cons (.inl rfl) .nil
  | cons next lines ih =>
    obtain ⟨hline, hrest⟩ := List.forall_mem_cons.1 h
    have hpiece : x ∉ line ++ e := by
      rw [List.mem_append, not_or]
      exact ⟨hline, he⟩
    have hjoined : (e ++ [x]).intercalate (line :: next :: lines) =
        (line ++ e) ++ x :: (e ++ [x]).intercalate (next :: lines) := by
      rw [List.intercalate_cons_cons]
      simp
    rw [hjoined, splitOn_append, splitOn_absent hpiece]
    exact .cons (.inr rfl) (ih next hrest)

theorem parse_joined (size : Nat) {e : List Char} (hb : Blanks e) (he : '\n' ∉ e)
    {lines : List (List Char)} (h : ∀ l ∈ lines, '\n' ∉ l) :
    parse size ((e ++ ['\n']).intercalate lines) = parseLines size lines := by
  cases lines with
  | nil => rfl
  | cons line lines =>
    have hpieces := splitOn_joined he line lines h
    have horders {pieces lines : List (List Char)}
        (h : List.Forall₂ (fun piece l => piece = l ∨ piece = l ++ e) pieces lines) (first : Nat) :
        readFrom first pieces = readFrom first lines := by
      induction h generalizing first with
      | nil => rfl
      | @cons piece l _ _ hpiece _ ih =>
        have hstatement : statement piece = statement l := by
          rcases hpiece with rfl | rfl
          · rfl
          · exact statement_end hb l
        rw [readFrom, readFrom, ih, readLine, readLine, hstatement]
    rw [parse, parseLines, parseLines, Text.lines, horders hpieces]

/-- The layout of source text does not matter: neither changes to any of its lines nor how the
lines are joined. -/
theorem layout_immaterial (size : Nat) :
    (∀ lines lines' : List (List Char),
      List.Forall₂ (Relation.ReflTransGen Edit) lines lines' →
        (parseLines size lines').mapError ProgramError.unquoted =
          (parseLines size lines).mapError ProgramError.unquoted) ∧
    ∀ lines : List (List Char), (∀ l ∈ lines, '\n' ∉ l) →
      parse size (['\n'].intercalate lines) = parseLines size lines ∧
        parse size (['\r', '\n'].intercalate lines) = parseLines size lines := by
  refine ⟨fun lines lines' h => ?_, fun lines h => ⟨?_, ?_⟩⟩
  · exact (parseLines_alike size (h.imp fun _ _ => alike_of_edits)).symm
  · exact parse_joined size (List.forall_mem_nil _) List.not_mem_nil h
  · exact parse_joined size (e := ['\r']) (by decide) (by decide) h

/-- A line with a label and an instruction, and the same with all that its layout can have. -/
theorem layout_immaterial_load :
    (parseLines 16 [" start: lda # $12;".toList]).mapError ProgramError.unquoted =
        (parseLines 16 ["Start: LDA #$12".toList]).mapError ProgramError.unquoted ∧
      parse 16 "Start: LDA #$12".toList = parseLines 16 ["Start: LDA #$12".toList] := by
  have hrecase : Edit "Start: LDA #$12".toList "start: lda #$12".toList := .recase (by decide)
  have hspread : Edit "start: lda #$12".toList "start: lda # $12".toList := by
    have hlead : Leads ("start".toList ++ ':' :: ([' '] ++ ("lda".toList ++ [' '])))
        (['#'] ++ "$12".toList) :=
      .labelled (by decide) (by decide) (by decide) (not_blank_of_ident (by decide)) (by decide)
    have hblank : Blanks [' '] := by decide
    exact .spread hlead hblank
  have hcomment : Edit "start: lda # $12".toList "start: lda # $12;".toList :=
    .comment "start: lda # $12".toList []
  have hfront : Edit "start: lda # $12;".toList " start: lda # $12;".toList :=
    @Edit.front [' '] (by decide) "start: lda # $12;".toList
  obtain ⟨hedits, hjoined⟩ := layout_immaterial 16
  refine ⟨hedits _ _ (.cons ?_ .nil), (hjoined ["Start: LDA #$12".toList] (by decide)).1⟩
  exact (((Relation.ReflTransGen.single hrecase).tail hspread).tail hcomment).tail hfront

end Source

end M6502
