import M6502.Proofs.Text.Plain
import Mathlib.Data.List.TakeWhile

/-!
# Text up to case and blanks

Nothing that reading looks for depends on the case of letters: not where blanks
and separators stand, nor what is an identifier. So letters may be folded before
a text is trimmed and split, or after. Blanks at the ends are lost in trimming,
and trimming loses nothing else.
-/

set_option autoImplicit false

namespace M6502.Text

theorem isAlpha_toLower {c : Char} (h : c.isUpper = true) : c.toLower.isAlpha = true := by
  have hall : ∀ n < 91, 65 ≤ n → (Char.ofNat n).toLower.isAlpha = true := by decide
  have hrange := toNat_of_isUpper h
  rw [← Char.ofNat_toNat c]
  exact hall c.toNat (by omega) hrange.1

/-- What is the same for all letters does not see their case. -/
theorem toLower_congr {α : Type} {f : Char → α} {k : α} (h : ∀ c, c.isAlpha = true → f c = k)
    (c : Char) : f c.toLower = f c := by
  cases hc : c.isUpper with
  | false => rw [toLower_of_not_upper hc]
  | true =>
    have halpha : c.isAlpha = true := by
      rw [isAlpha_eq, hc]
      rfl
    rw [h c halpha, h c.toLower (isAlpha_toLower hc)]

theorem not_blank_of_isAlpha {c : Char} (h : c.isAlpha = true) : isBlank c = false := by
  rcases Bool.or_eq_true_iff.1 ((isAlpha_eq c).symm.trans h) with hc | hc
  · have hrange := toNat_of_isUpper hc
    simp [isBlank]
    omega
  · have hrange := toNat_of_isLower hc
    simp [isBlank]
    omega

theorem isBlank_toLower (c : Char) : isBlank c.toLower = isBlank c :=
  toLower_congr (fun _ => not_blank_of_isAlpha) c

theorem toLower_eq_iff {x : Char} (hx : x.isAlpha = false) (c : Char) : c.toLower = x ↔ c = x :=
  iff_of_eq <| @toLower_congr _ (· = x) False (fun d hd => eq_false (by
    rintro rfl
    rw [hx] at hd
    contradiction)) c

theorem isIdentStart_toLower (c : Char) : isIdentStart c.toLower = isIdentStart c :=
  @toLower_congr _ isIdentStart true (fun d hd => by rw [isIdentStart, hd, Bool.true_or]) c

theorem isIdentChar_toLower (c : Char) : isIdentChar c.toLower = isIdentChar c :=
  @toLower_congr _ isIdentChar true
    (fun d hd => by rw [isIdentChar, Char.isAlphanum, hd, Bool.true_or, Bool.true_or]) c

theorem lower_lower (s : List Char) : lower (lower s) = lower s := by
  rw [lower, List.map_congr_left fun c hc => toLower_of_not_upper (lower_not_upper s c hc),
    List.map_id']

section Filters

variable {p : Char → Bool} (hp : ∀ c, p c.toLower = p c) (s : List Char)
include hp

theorem takeWhile_lower : (lower s).takeWhile p = lower (s.takeWhile p) := by
  rw [lower, List.takeWhile_map, (funext hp : p ∘ Char.toLower = p)]
  rfl

theorem dropWhile_lower : (lower s).dropWhile p = lower (s.dropWhile p) := by
  rw [lower, List.dropWhile_map, (funext hp : p ∘ Char.toLower = p)]
  rfl

theorem filter_lower : (lower s).filter p = lower (s.filter p) := by
  rw [lower, List.filter_map, (funext hp : p ∘ Char.toLower = p)]
  rfl

end Filters

theorem not_isBlank_toLower (c : Char) : (!isBlank c.toLower) = !isBlank c :=
  congrArg _ (isBlank_toLower c)

theorem trimEnd_lower (s : List Char) : trimEnd (lower s) = lower (trimEnd s) := by
  have hreverse : (lower s).reverse = lower s.reverse := List.map_reverse.symm
  rw [trimEnd, trimEnd, hreverse, dropWhile_lower isBlank_toLower]
  exact List.map_reverse.symm

theorem trim_lower (s : List Char) : trim (lower s) = lower (trim s) := by
  rw [trim, trim, dropWhile_lower isBlank_toLower, trimEnd_lower]

theorem splitAtBlank_lower (s : List Char) :
    splitAtBlank (lower s) = (lower (splitAtBlank s).1, lower (splitAtBlank s).2) := by
  rw [splitAtBlank, takeWhile_lower not_isBlank_toLower, dropWhile_lower not_isBlank_toLower]
  exact Prod.ext rfl List.map_drop.symm

theorem splitAtChar?_lower {x : Char} (hx : x.isAlpha = false) (s : List Char) :
    splitAtChar? x (lower s) = (splitAtChar? x s).map fun p => (lower p.1, lower p.2) := by
  induction s with
  | nil => rfl
  | cons c s ih =>
    rw [lower, List.map_cons, splitAtChar?, splitAtChar?]
    by_cases h : c = x
    · rw [if_pos h, if_pos ((toLower_eq_iff hx c).2 h)]
      rfl
    · rw [lower] at ih
      rw [if_neg h, if_neg (mt (toLower_eq_iff hx c).1 h), ih, Option.map_map, Option.map_map]
      rfl

theorem splitOn_lower {x : Char} (hx : x.isAlpha = false) (s : List Char) :
    splitOn x (lower s) = (splitOn x s).map lower := by
  induction s with
  | nil => rfl
  | cons c s ih =>
    rw [lower, List.map_cons, splitOn, splitOn]
    by_cases h : c = x
    · rw [lower] at ih
      rw [if_pos h, if_pos ((toLower_eq_iff hx c).2 h), ih]
      rfl
    · rw [lower] at ih
      rw [if_neg h, if_neg (mt (toLower_eq_iff hx c).1 h), ih]
      cases hs : splitOn x s with
      | nil => exact absurd hs (splitOn_ne_nil x s)
      | cons piece pieces => rfl

theorem isIdent_lower (s : List Char) : isIdent (lower s) = isIdent s := by
  cases s with
  | nil => rfl
  | cons c s =>
    rw [lower, List.map_cons, isIdent, isIdent, isIdentStart_toLower, List.all_map]
    exact congrArg _ (congrArg _ (funext isIdentChar_toLower))

def Blanks (s : List Char) : Prop :=
  ∀ c ∈ s, isBlank c = true

instance (s : List Char) : Decidable (Blanks s) :=
  decidable_of_iff (s.all isBlank = true) List.all_eq_true

section Blanks

variable {b : List Char} (hb : Blanks b) (s : List Char)
include hb

theorem filter_blanks : b.filter (!isBlank ·) = [] := by
  rw [List.filter_eq_nil_iff]
  intro c hc
  rw [hb c hc]
  decide

theorem trim_blanks_append : trim (b ++ s) = trim s := by
  rw [trim, List.dropWhile_append_of_pos hb, trim]

theorem trimEnd_append_blanks : trimEnd (s ++ b) = trimEnd s := by
  rw [trimEnd, List.reverse_append,
    List.dropWhile_append_of_pos fun c hc => hb c (List.mem_reverse.1 hc), trimEnd]

theorem trim_append_blanks : trim (s ++ b) = trim s := by
  rw [trim, trim, List.dropWhile_append]
  split
  · rename_i hempty
    rw [List.isEmpty_iff.1 hempty, List.dropWhile_eq_nil_iff.2 hb]
  · exact trimEnd_append_blanks hb _

end Blanks

theorem exists_trimEnd (s : List Char) : ∃ b, Blanks b ∧ s = trimEnd s ++ b := by
  refine ⟨(s.reverse.takeWhile isBlank).reverse, fun c hc => ?_, ?_⟩
  · exact List.mem_takeWhile_imp (List.mem_reverse.1 hc)
  · rw [trimEnd, ← List.reverse_append, List.takeWhile_append_dropWhile, List.reverse_reverse]

theorem trim_trimEnd (s : List Char) : trim (trimEnd s) = trim s := by
  obtain ⟨b, hb, hs⟩ := exists_trimEnd s
  have htrim := trim_append_blanks hb (trimEnd s)
  rw [← hs] at htrim
  exact htrim.symm

theorem filter_trimEnd (s : List Char) :
    (trimEnd s).filter (!isBlank ·) = s.filter (!isBlank ·) := by
  obtain ⟨b, hb, hs⟩ := exists_trimEnd s
  have hfilter := congrArg (List.filter (!isBlank ·)) hs
  rw [List.filter_append, filter_blanks hb, List.append_nil] at hfilter
  exact hfilter.symm

theorem exists_dropWhile (s : List Char) : ∃ b, Blanks b ∧ s = b ++ s.dropWhile isBlank :=
  ⟨s.takeWhile isBlank, fun _ => List.mem_takeWhile_imp, List.takeWhile_append_dropWhile.symm⟩

theorem trim_dropWhile (s : List Char) : trim (s.dropWhile isBlank) = trim s := by
  obtain ⟨b, hb, hs⟩ := exists_dropWhile s
  have htrim := trim_blanks_append hb (s.dropWhile isBlank)
  rw [← hs] at htrim
  exact htrim.symm

theorem filter_trim (s : List Char) : (trim s).filter (!isBlank ·) = s.filter (!isBlank ·) := by
  obtain ⟨b, hb, hs⟩ := exists_dropWhile s
  have hfilter := congrArg (List.filter (!isBlank ·)) hs
  rw [List.filter_append, filter_blanks hb, List.nil_append] at hfilter
  rw [trim, filter_trimEnd, hfilter]

theorem mem_trim {s : List Char} {c : Char} (h : c ∈ s) (hc : isBlank c = false) : c ∈ trim s := by
  have hfilter : c ∈ s.filter (!isBlank ·) := List.mem_filter.2 ⟨h, by rw [hc]; rfl⟩
  rw [← filter_trim] at hfilter
  exact (List.mem_filter.1 hfilter).1

section Solid

variable {c : Char} (hc : isBlank c = false) (s t : List Char)
include hc

theorem trimEnd_append_cons : trimEnd (s ++ c :: t) = s ++ c :: trimEnd t := by
  have hstop : (c :: s.reverse).dropWhile isBlank = c :: s.reverse :=
    List.dropWhile_cons_of_neg (by rw [hc]; decide)
  rw [trimEnd, trimEnd, List.reverse_append, List.reverse_cons, List.append_assoc,
    List.singleton_append, List.dropWhile_append, hstop]
  split
  · rename_i hempty
    rw [List.isEmpty_iff.1 hempty, List.reverse_cons, List.reverse_reverse]
    rfl
  · rw [List.reverse_append, List.reverse_cons, List.reverse_reverse, List.append_assoc]
    rfl

theorem trim_append_cons : trim (s ++ c :: t) = s.dropWhile isBlank ++ c :: trimEnd t := by
  have hdrop : (s ++ c :: t).dropWhile isBlank = s.dropWhile isBlank ++ c :: t := by
    rw [List.dropWhile_append, List.dropWhile_cons_of_neg (by rw [hc]; decide)]
    split
    · rename_i hempty
      rw [List.isEmpty_iff.1 hempty]
      rfl
    · rfl
  rw [trim, hdrop, trimEnd_append_cons hc]

end Solid

/-- A word stays in front of what is trimmed behind it. -/
theorem trim_word_append {w : List Char} (hne : w ≠ []) (hw : ∀ c ∈ w, isBlank c = false)
    (t : List Char) : trim (w ++ t) = w ++ trimEnd t := by
  obtain ⟨s, c, rfl⟩ := (List.eq_nil_or_concat w).resolve_left hne
  rw [List.concat_eq_append] at hw ⊢
  have hstop : s.dropWhile isBlank = s := by
    cases s with
    | nil => rfl
    | cons d s => exact List.dropWhile_cons_of_neg (by rw [hw d (by simp)]; decide)
  rw [List.append_assoc, List.singleton_append, trim_append_cons (hw c (by simp)), hstop]
  simp

theorem splitAtChar?_append {x : Char} {s : List Char} (h : x ∉ s) (t : List Char) :
    splitAtChar? x (s ++ x :: t) = some (s, t) := by
  induction s with
  | nil => exact if_pos rfl
  | cons c s ih =>
    rw [List.mem_cons, not_or] at h
    rw [List.cons_append, splitAtChar?, if_neg (Ne.symm h.1), ih h.2]
    rfl

theorem eq_of_splitAtChar? {x : Char} {s front back : List Char}
    (h : splitAtChar? x s = some (front, back)) : s = front ++ x :: back := by
  induction s generalizing front with
  | nil => contradiction
  | cons c s ih =>
    rw [splitAtChar?] at h
    split at h
    · rename_i hc
      cases h
      rw [hc]
      rfl
    · obtain ⟨p, hp, heq⟩ := Option.map_eq_some_iff.1 h
      cases heq
      rw [ih hp]
      rfl

end M6502.Text
