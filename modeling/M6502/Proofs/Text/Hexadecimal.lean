import M6502.Text.Numeral

/-!
# Hexadecimal numbers read back

What `hexDigits` writes, `readNumber` reads, and the digits are as many as
the width asks for when the number has no more of its own.
-/

set_option autoImplicit false

namespace M6502.Text

theorem digitValue?_digitChar : ∀ d < 16, digitValue? (Nat.digitChar d) = some d := by
  decide

theorem continueNumber_append (radix bound acc : Nat) (xs ys : List Char) :
    continueNumber radix bound acc (xs ++ ys) =
      (continueNumber radix bound acc xs).bind fun n => continueNumber radix bound n ys := by
  induction xs generalizing acc with
  | nil => rfl
  | cons c xs ih =>
    simp only [List.cons_append, continueNumber]
    split
    · rfl
    · split
      · exact ih _
      · rfl

theorem continueNumber_digit {bound acc d : Nat} (hd : d < 16) (h : acc * 16 + d < bound) :
    continueNumber 16 bound acc [Nat.digitChar d] = some (acc * 16 + d) := by
  simp only [continueNumber, digitValue?_digitChar d hd]
  exact if_pos ⟨hd, h⟩

theorem continueNumber_toDigits {bound n : Nat} (h : n < bound) :
    continueNumber 16 bound 0 (Nat.toDigits 16 n) = some n := by
  induction n using Nat.strongRecOn with
  | ind n ih =>
    by_cases hn : n < 16
    · rw [Nat.toDigits_of_lt_base hn, continueNumber_digit hn (by omega)]
      simp
    · have hdm : n / 16 * 16 + n % 16 = n := by omega
      rw [Nat.toDigits_of_base_le (by decide) (by omega), continueNumber_append,
        ih (n / 16) (by omega) (by omega), Option.bind_some,
        continueNumber_digit (Nat.mod_lt _ (by decide)) (by omega), hdm]

theorem continueNumber_zeros {bound : Nat} (hb : 0 < bound) (k : Nat) :
    continueNumber 16 bound 0 (List.replicate k '0') = some 0 := by
  induction k with
  | zero => rfl
  | succ k ih =>
    rw [List.replicate_succ', continueNumber_append, ih, Option.bind_some]
    exact continueNumber_digit (d := 0) (by decide) (by omega)

theorem mem_toDigits {n : Nat} {c : Char} (h : c ∈ Nat.toDigits 16 n) :
    ∃ d < 16, c = Nat.digitChar d := by
  induction n using Nat.strongRecOn with
  | ind n ih =>
    by_cases hn : n < 16
    · rw [Nat.toDigits_of_lt_base hn, List.mem_singleton] at h
      exact ⟨n, hn, h⟩
    · rw [Nat.toDigits_of_base_le (by decide) (by omega), List.mem_append,
        List.mem_singleton] at h
      rcases h with h | h
      · exact ih (n / 16) (by omega) h
      · exact ⟨n % 16, Nat.mod_lt _ (by decide), h⟩

theorem mem_hexDigits {width n : Nat} {c : Char} (h : c ∈ hexDigits width n) :
    ∃ d < 16, c = Nat.digitChar d := by
  rcases List.mem_append.1 h with h | h
  · exact ⟨0, by decide, List.eq_of_mem_replicate h⟩
  · exact mem_toDigits h

theorem hexDigits_ne_nil (width n : Nat) : hexDigits width n ≠ [] := by
  simp [hexDigits, List.leftpad]

theorem length_hexDigits {width n : Nat} (hw : 0 < width) (h : n < Nat.pow 16 width) :
    (hexDigits width n).length = width := by
  have hle := (Nat.length_toDigits_le_iff (by decide) hw).2 h
  rw [hexDigits, List.leftpad, List.length_append, List.length_replicate]
  omega

theorem isHexDigit_of_mem {width n : Nat} {c : Char} (h : c ∈ hexDigits width n) :
    isHexDigit c = true := by
  obtain ⟨d, hd, rfl⟩ := mem_hexDigits h
  rw [isHexDigit, digitValue?_digitChar d hd]
  rfl

/-- Digits are read as they are, since a plus sign is none. -/
theorem readNumber_of_digits {radix bound : Nat} {s : List Char} (hs : s ≠ [])
    (hd : ∀ c ∈ s, isHexDigit c = true) :
    readNumber radix bound s = continueNumber radix bound 0 s := by
  cases s with
  | nil => contradiction
  | cons c s =>
    unfold readNumber
    split
    · rename_i heq
      cases heq
      exact absurd (hd '+' List.mem_cons_self) (by decide)
    · rfl

theorem readNumber_hexDigits {bound n : Nat} (h : n < bound) (width : Nat) :
    readNumber 16 bound (hexDigits width n) = some n := by
  rw [readNumber_of_digits (hexDigits_ne_nil _ _) fun _ => isHexDigit_of_mem, hexDigits,
    List.leftpad, continueNumber_append, continueNumber_zeros (by omega), Option.bind_some,
    continueNumber_toDigits h]

end M6502.Text
