import M6502.InstructionSet.OperandText
import M6502.Proofs.Text.Hexadecimal

/-!
# Text that reading leaves as it is

A plain character is none that ends a comment, a label or a word, and is in
lower case. Words of plain characters pass trimming, splitting and folding
unchanged; the listing writes nothing else.
-/

set_option autoImplicit false

namespace M6502.Text

def isPlain (c : Char) : Bool :=
  !isBlank c && c != ';' && c != ':' && c.toLower == c

def isLowerIdent (s : List Char) : Bool :=
  isIdent s && s.all (!·.isUpper)

theorem isPlain_iff {c : Char} :
    isPlain c = true ↔ isBlank c = false ∧ c ≠ ';' ∧ c ≠ ':' ∧ c.toLower = c := by
  simp [isPlain, and_assoc]

theorem isPlain_digitChar : ∀ d < 16, isPlain (Nat.digitChar d) = true := by
  decide

theorem isAlpha_eq (c : Char) : c.isAlpha = (c.isUpper || c.isLower) :=
  rfl

theorem isAlphanum_eq (c : Char) : c.isAlphanum = (c.isUpper || c.isLower || c.isDigit) :=
  rfl

theorem isIdentChar_cases {c : Char} (h : isIdentChar c = true) :
    c.isUpper = true ∨ c.isLower = true ∨ c.isDigit = true ∨ c = '_' := by
  simpa [isIdentChar, isAlphanum_eq, or_assoc] using h

theorem isIdentStart_cases {c : Char} (h : isIdentStart c = true) :
    c.isUpper = true ∨ c.isLower = true ∨ c = '_' := by
  simpa [isIdentStart, isAlpha_eq, or_assoc] using h

theorem isIdentChar_of_start {c : Char} (h : isIdentStart c = true) : isIdentChar c = true := by
  rcases isIdentStart_cases h with h | h | rfl
  · simp [isIdentChar, isAlphanum_eq, h]
  · simp [isIdentChar, isAlphanum_eq, h]
  · decide

theorem isIdent_chars {s : List Char} (h : isIdent s = true) :
    ∃ c t, s = c :: t ∧ isIdentStart c = true ∧ s.all isIdentChar = true := by
  cases s with
  | nil => contradiction
  | cons c t =>
    obtain ⟨hc, ht⟩ := Bool.and_eq_true_iff.1 h
    exact ⟨c, t, rfl, hc, by rw [List.all_cons, isIdentChar_of_start hc, ht]; rfl⟩

theorem toNat_of_isUpper {c : Char} (h : c.isUpper = true) : 65 ≤ c.toNat ∧ c.toNat ≤ 90 := by
  have hc := of_decide_eq_true h
  exact ⟨hc.1, hc.2⟩

theorem toLower_of_not_upper {c : Char} (h : c.isUpper = false) : c.toLower = c := by
  have hc := of_decide_eq_false h
  exact dif_neg hc

theorem toLower_not_upper (c : Char) : c.toLower.isUpper = false := by
  cases hc : c.isUpper with
  | false =>
    rw [toLower_of_not_upper hc]
    exact hc
  | true =>
    have hb := of_decide_eq_true hc
    have hlow : c.toLower = _ := dif_pos hb
    have hval : c.toLower.val = c.val + 32 := by
      rw [hlow]
      rfl
    apply decide_eq_false
    rintro ⟨-, hhigh⟩
    rw [hval] at hhigh
    have hc := toNat_of_isUpper hc
    have hn : (c.val + 32).toNat ≤ 90 := hhigh
    rw [UInt32.toNat_add] at hn
    have hcval : c.val.toNat = c.toNat := rfl
    have h32 : (32 : UInt32).toNat = 32 := rfl
    omega

theorem lower_not_upper (s : List Char) : ∀ c ∈ lower s, c.isUpper = false := by
  intro c hc
  obtain ⟨d, -, rfl⟩ := List.mem_map.1 hc
  exact toLower_not_upper d

theorem isLowerIdent_of_chars {s : List Char} (h : isIdent s = true)
    (hl : ∀ c ∈ s, c.isUpper = false) : isLowerIdent s = true := by
  rw [isLowerIdent, h, Bool.true_and, List.all_eq_true]
  intro c hc
  rw [hl c hc]
  rfl

theorem toNat_of_isLower {c : Char} (h : c.isLower = true) : 97 ≤ c.toNat ∧ c.toNat ≤ 122 := by
  obtain ⟨hl, hh⟩ := Bool.and_eq_true_iff.1 h
  have hl := of_decide_eq_true hl
  have hh := of_decide_eq_true hh
  exact ⟨hl, hh⟩

theorem toNat_of_isDigit {c : Char} (h : c.isDigit = true) : 48 ≤ c.toNat ∧ c.toNat ≤ 57 := by
  obtain ⟨hl, hh⟩ := Bool.and_eq_true_iff.1 h
  have hl := of_decide_eq_true hl
  have hh := of_decide_eq_true hh
  exact ⟨hl, hh⟩

theorem not_digit_of_start {c : Char} (h : isIdentStart c = true) : c.isDigit = false := by
  cases hd : c.isDigit with
  | false => rfl
  | true =>
    have hdigit := toNat_of_isDigit hd
    rcases isIdentStart_cases h with h | h | rfl
    · have hupper := toNat_of_isUpper h
      omega
    · have hlower := toNat_of_isLower h
      omega
    · contradiction

theorem isPlain_of_toNat {c : Char} (hu : c.isUpper = false) (hlow : 0x21 ≤ c.toNat)
    (hhigh : c.toNat ≤ 0x7E) (hs : c.toNat ≠ 0x3B) (hc : c.toNat ≠ 0x3A) : isPlain c = true := by
  rw [isPlain_iff]
  have hblank : isBlank c = false := by
    simp [isBlank]
    omega
  refine ⟨hblank, ?_, ?_, toLower_of_not_upper hu⟩
  · rintro rfl
    exact hs rfl
  · rintro rfl
    exact hc rfl

theorem isPlain_of_isIdentChar {c : Char} (h : isIdentChar c = true) (hu : c.isUpper = false) :
    isPlain c = true := by
  rcases isIdentChar_cases h with h | h | h | rfl
  · rw [hu] at h
    contradiction
  · have hc := toNat_of_isLower h
    apply isPlain_of_toNat hu <;> omega
  · have hc := toNat_of_isDigit h
    apply isPlain_of_toNat hu <;> omega
  · decide

structure PlainWord (s : List Char) : Prop where
  ne_nil : s ≠ []
  plain : ∀ c ∈ s, isPlain c = true

theorem PlainWord.of_all {s : List Char} (hne : s ≠ []) (h : s.all isPlain = true) : PlainWord s :=
  ⟨hne, List.all_eq_true.1 h⟩

theorem PlainWord.append {s t : List Char} (hs : PlainWord s) (ht : ∀ c ∈ t, isPlain c = true) :
    PlainWord (s ++ t) :=
  ⟨by simp [hs.ne_nil], List.forall_mem_append.2 ⟨hs.plain, ht⟩⟩

theorem PlainWord.cons {c : Char} {s : List Char} (hc : isPlain c = true)
    (hs : ∀ d ∈ s, isPlain d = true) : PlainWord (c :: s) :=
  ⟨by simp, List.forall_mem_cons.2 ⟨hc, hs⟩⟩

theorem PlainWord.not_blank {w : List Char} (hw : PlainWord w) {c : Char} (hc : c ∈ w) :
    isBlank c = false :=
  (isPlain_iff.1 (hw.plain c hc)).1

theorem trimEnd_concat (s : List Char) {c : Char} (hc : isBlank c = false) :
    trimEnd (s ++ [c]) = s ++ [c] := by
  simp [trimEnd, hc]

/-- Trimming keeps what begins and ends with a word. -/
theorem trim_between {w v : List Char} (hw : PlainWord w) (m : List Char) (hv : PlainWord v) :
    trim (w ++ (m ++ v)) = w ++ (m ++ v) := by
  obtain ⟨t, c, rfl⟩ := (List.eq_nil_or_concat v).resolve_left hv.ne_nil
  rw [List.concat_eq_append] at hv ⊢
  have hlast : isBlank c = false := hv.not_blank (by simp)
  cases w with
  | nil => exact absurd rfl hw.ne_nil
  | cons d w =>
    have hfirst : isBlank d = false := hw.not_blank List.mem_cons_self
    rw [trim, List.cons_append, List.dropWhile_cons_of_neg (by simp [hfirst])]
    have hassoc : d :: (w ++ (m ++ (t ++ [c]))) = (d :: (w ++ (m ++ t))) ++ [c] := by simp
    rw [hassoc]
    exact trimEnd_concat _ hlast

theorem trim_word {w : List Char} (hw : PlainWord w) : trim w = w := by
  cases w with
  | nil => exact absurd rfl hw.ne_nil
  | cons c w =>
    have hc : PlainWord [c] := PlainWord.cons (hw.plain c List.mem_cons_self) (by simp)
    rcases List.eq_nil_or_concat w with rfl | ⟨t, d, rfl⟩
    · have hb : isBlank c = false := hw.not_blank List.mem_cons_self
      simp [trim, trimEnd, hb]
    · have hd : PlainWord [d] := PlainWord.cons (hw.plain d (by simp)) (by simp)
      rw [List.concat_eq_append]
      exact trim_between hc t hd

theorem trim_blank {c : Char} (hc : isBlank c = true) (s : List Char) :
    trim (c :: s) = trim s := by
  rw [trim, List.dropWhile_cons_of_pos hc, trim]

theorem lower_word {w : List Char} (hw : PlainWord w) : lower w = w := by
  rw [lower, List.map_congr_left fun c hc => (isPlain_iff.1 (hw.plain c hc)).2.2.2, List.map_id']

theorem filter_word {w : List Char} (hw : PlainWord w) : w.filter (!isBlank ·) = w := by
  rw [List.filter_eq_self]
  intro c hc
  rw [hw.not_blank hc]
  rfl

theorem splitAtBlank_word {w : List Char} (hw : ∀ c ∈ w, isBlank c = false) :
    splitAtBlank w = (w, []) := by
  have hpos : ∀ c ∈ w, (!isBlank c) = true := by
    intro c hc
    rw [hw c hc]
    rfl
  have htake := @List.takeWhile_append_of_pos _ _ w [] hpos
  have hdrop := @List.dropWhile_append_of_pos _ _ w [] hpos
  rw [List.append_nil] at htake hdrop
  rw [splitAtBlank, htake, hdrop]
  simp

theorem splitAtBlank_append {w : List Char} (hw : ∀ c ∈ w, isBlank c = false) {c : Char}
    (hc : isBlank c = true) (s : List Char) : splitAtBlank (w ++ c :: s) = (w, s) := by
  have hpos : ∀ c ∈ w, (!isBlank c) = true := by
    intro c hc
    rw [hw c hc]
    rfl
  rw [splitAtBlank, List.takeWhile_append_of_pos hpos, List.dropWhile_append_of_pos hpos]
  simp [hc]

theorem splitAtChar?_absent {c : Char} {s : List Char} (h : c ∉ s) : splitAtChar? c s = none := by
  induction s with
  | nil => rfl
  | cons d s ih =>
    rw [List.mem_cons, not_or] at h
    rw [splitAtChar?, if_neg (Ne.symm h.1), ih h.2]
    rfl

theorem splitOn_absent {c : Char} {s : List Char} (h : c ∉ s) : splitOn c s = [s] := by
  induction s with
  | nil => rfl
  | cons d s ih =>
    rw [List.mem_cons, not_or] at h
    rw [splitOn, if_neg (Ne.symm h.1), ih h.2]

theorem splitOn_append (c : Char) (s t : List Char) :
    splitOn c (s ++ c :: t) = splitOn c s ++ splitOn c t := by
  induction s with
  | nil => simp [splitOn]
  | cons d s ih =>
    rw [List.cons_append, splitOn, splitOn]
    split
    · rw [ih]
      rfl
    · rw [ih]
      cases hs : splitOn c s with
      | nil => exact absurd hs (splitOn_ne_nil c s)
      | cons piece pieces => rfl

end M6502.Text
