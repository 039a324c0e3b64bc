import M6502.Program.Snippet
import M6502.Proofs.Program.Growth

/-!
# Programs written piece by piece

A program is written in pieces: calls, requests for a label name, and the
snippets that loop and make up their labels. The counter never goes back and
a name ends in its number, so no name is made up twice. That leaves to the
snippets all the names with their stems that are still to come, as long as
the other calls set no label with one of these names.
-/

set_option autoImplicit false

namespace M6502

/-- Text behind a mark that it does not contain can be told from the text in front. -/
theorem append_cons_inj {α : Type} {mark : α} {as bs xs ys : List α}
    (h : as ++ mark :: xs = bs ++ mark :: ys) (hx : mark ∉ xs) (hy : mark ∉ ys) :
    as = bs ∧ xs = ys := by
  rcases List.append_eq_append_iff.1 h with ⟨cs, rfl, hcs⟩ | ⟨cs, rfl, hcs⟩
  · cases cs with
    | nil => simpa using hcs
    | cons c cs =>
      have hmem : mark ∈ xs := by simp [(List.cons.inj hcs).2]
      exact absurd hmem hx
  · cases cs with
    | nil => simpa using hcs.symm
    | cons c cs =>
      have hmem : mark ∈ ys := by simp [(List.cons.inj hcs).2]
      exact absurd hmem hy

namespace Program

theorem toList_mintedName (stem : String) (n : Nat) :
    (mintedName stem n).toList = stem.toList ++ '_' :: Nat.toDigits 10 n := by
  simp [mintedName]

/-- A made-up name tells its stem and its number, whatever the stem ends in. -/
theorem mintedName_inj {stem stem' : String} {n n' : Nat}
    (h : mintedName stem n = mintedName stem' n') : stem = stem' ∧ n = n' := by
  have hmark (n : Nat) : '_' ∉ Nat.toDigits 10 n := by
    intro hmem
    have hdigit := Nat.isDigit_of_mem_toDigits (by decide) (by decide) hmem
    contradiction
  have hlist := congrArg String.toList h
  rw [toList_mintedName, toList_mintedName] at hlist
  obtain ⟨hstem, hdigits⟩ := append_cons_inj hlist (hmark n) (hmark n')
  refine ⟨String.toList_inj.1 hstem, ?_⟩
  have hnumber := congrArg (fun ds => Nat.ofDigitChars 10 ds 0) hdigits
  simpa using hnumber

end Program

inductive Piece where
  | call (c : Call)
  | name (stem : String)
  | copy (dst src : UInt16) (len : UInt8)
  | divide (numerator denominator : UInt16)

namespace Piece

def stems : List String :=
  ["copy_loop", "div_bit", "div_skip"]

def calls (p : Program) : Piece → List Call
  | .call c => [c]
  | .name _ => [.mint]
  | .copy dst src len => Snippet.copy p dst src len
  | .divide numerator denominator => Snippet.divide p numerator denominator

def names (p : Program) : Piece → List String
  | .call _ => []
  | .name stem => [p.nextName stem]
  | .copy _ _ _ => [p.nextName "copy_loop"]
  | .divide _ _ => [p.nextName "div_bit", p.mint.nextName "div_skip"]

def isSnippet : Piece → Bool
  | .call _ | .name _ => false
  | .copy _ _ _ | .divide _ _ => true

def Spares (piece : Piece) : Prop :=
  ∀ stem ∈ stems, ∀ n, piece ≠ .call (.setLabel (Program.mintedName stem n))

end Piece

namespace Program

open Piece (stems)

def write (p : Program) (piece : Piece) : Program :=
  (p.perform (piece.calls p)).2

def writeAll (p : Program) (pieces : List Piece) : Program :=
  pieces.foldl write p

def namesGiven (p : Program) : List Piece → List String
  | [] => []
  | piece :: pieces => piece.names p ++ (p.write piece).namesGiven pieces

theorem writeAll_append (p : Program) (before after : List Piece) :
    p.writeAll (before ++ after) = (p.writeAll before).writeAll after :=
  List.foldl_append

/-- Calls are performed up to some point and then no further. -/
theorem perform_eq_attemptAll (p : Program) (calls : List Call) :
    ∃ done, done <+: calls ∧ (p.perform calls).2 = p.attemptAll done := by
  induction calls generalizing p with
  | nil => exact ⟨[], List.prefix_rfl, rfl⟩
  | cons c calls ih =>
    rw [perform]
    cases hc : c.apply p with
    | error e => exact ⟨[], List.nil_prefix, rfl⟩
    | ok q =>
      obtain ⟨done, hdone, hq⟩ := ih q
      refine ⟨c :: done, List.cons_prefix_cons.2 ⟨rfl, hdone⟩, ?_⟩
      rw [hq, attemptAll, attemptAll, List.foldl_cons, attempt_of_ok hc]

theorem extends_perform (p : Program) (calls : List Call) : p.Extends (p.perform calls).2 := by
  obtain ⟨done, -, hq⟩ := p.perform_eq_attemptAll calls
  rw [hq]
  exact p.extends_attemptAll done

theorem extends_writeAll (p : Program) (pieces : List Piece) : p.Extends (p.writeAll pieces) := by
  induction pieces generalizing p with
  | nil => exact .refl p
  | cons piece pieces ih => exact (p.extends_perform (piece.calls p)).trans (ih (p.write piece))

theorem writeAll_eq_attemptAll (p : Program) (pieces : List Piece) :
    ∃ calls, p.writeAll pieces = p.attemptAll calls := by
  induction pieces generalizing p with
  | nil => exact ⟨[], rfl⟩
  | cons piece pieces ih =>
    obtain ⟨done, -, hdone⟩ := p.perform_eq_attemptAll (piece.calls p)
    obtain ⟨calls, hcalls⟩ := ih (p.write piece)
    refine ⟨done ++ calls, ?_⟩
    rw [attemptAll_append, ← hdone]
    exact hcalls

/-- The names of a piece have numbers that were free before and are used up behind it. -/
theorem mem_names {p : Program} {piece : Piece} {name : String} (h : name ∈ piece.names p) :
    ∃ stem n, name = mintedName stem n ∧ p.minted ≤ n ∧ n < (p.write piece).minted := by
  cases piece with
  | call c => exact absurd h List.not_mem_nil
  | name stem =>
    rw [List.mem_singleton.1 h]
    exact ⟨stem, p.minted, rfl, Nat.le_refl _, Nat.lt_succ_self _⟩
  | copy dst src len =>
    have hminted : p.mint.minted ≤ (p.write (.copy dst src len)).minted :=
      (extends_perform p.mint _).minted_le
    rw [List.mem_singleton.1 h]
    exact ⟨_, p.minted, rfl, Nat.le_refl _, hminted⟩
  | divide numerator denominator =>
    have hminted : p.mint.mint.minted ≤ (p.write (.divide numerator denominator)).minted :=
      (extends_perform p.mint.mint _).minted_le
    rcases List.mem_cons.1 h with rfl | h
    · exact ⟨_, p.minted, rfl, Nat.le_refl _, Nat.lt_of_succ_lt hminted⟩
    · rw [List.mem_singleton.1 h]
      exact ⟨_, p.minted + 1, rfl, Nat.le_succ _, hminted⟩

theorem nodup_names (p : Program) (piece : Piece) : (piece.names p).Nodup := by
  cases piece with
  | call c => exact List.nodup_nil
  | name | copy => exact List.pairwise_singleton _ _
  | divide numerator denominator =>
    refine List.nodup_cons.2 ⟨?_, List.pairwise_singleton _ _⟩
    intro h
    have hnumber : p.minted = p.minted + 1 := (mintedName_inj (List.mem_singleton.1 h)).2
    omega

theorem mem_namesGiven {p : Program} {pieces : List Piece} {name : String}
    (h : name ∈ p.namesGiven pieces) : ∃ stem n, name = mintedName stem n ∧ p.minted ≤ n := by
  induction pieces generalizing p with
  | nil => contradiction
  | cons piece pieces ih =>
    rcases List.mem_append.1 h with h | h
    · obtain ⟨stem, n, hname, hn, -⟩ := mem_names h
      exact ⟨stem, n, hname, hn⟩
    · obtain ⟨stem, n, hname, hn⟩ := ih h
      exact ⟨stem, n, hname, Nat.le_trans (p.extends_perform _).minted_le hn⟩

/-- No name is made up twice: later names have later numbers. -/
theorem nodup_namesGiven (p : Program) (pieces : List Piece) : (p.namesGiven pieces).Nodup := by
  induction pieces generalizing p with
  | nil => exact List.nodup_nil
  | cons piece pieces ih =>
    refine List.nodup_append.2 ⟨p.nodup_names piece, ih (p.write piece), ?_⟩
    rintro a ha b hb rfl
    obtain ⟨stem, n, rfl, -, hlt⟩ := mem_names ha
    obtain ⟨stem', n', hname, hle⟩ := mem_namesGiven hb
    obtain ⟨-, rfl⟩ := mintedName_inj hname
    omega

def Free (p : Program) : Prop :=
  ∀ stem ∈ stems, ∀ n, p.minted ≤ n → p.address? (mintedName stem n) = none

theorem setLabel_mem_of_marks {p : Program} {calls : List Call} {name : String} {t : Nat}
    (h : (name, t) ∈ p.marks calls) : .setLabel name ∈ calls := by
  induction calls generalizing p with
  | nil => contradiction
  | cons c calls ih =>
    rcases List.mem_append.1 h with h | h
    · obtain ⟨rfl, -, -⟩ := mem_marked.1 h
      exact List.mem_cons_self
    · exact List.mem_cons_of_mem c (ih h)

/-- A piece sets the label that its call says, or its own names. -/
theorem setLabel_mem_calls {p : Program} {piece : Piece} {name : String}
    (h : .setLabel name ∈ piece.calls p) :
    piece = .call (.setLabel name) ∨ name ∈ piece.names p := by
  cases piece with
  | call c => exact .inl (by rw [List.mem_singleton.1 h])
  | name stem => exact absurd (List.mem_singleton.1 h) Call.noConfusion
  | copy dst src len =>
    simp [Piece.calls, Snippet.copy, Snippet.copyLoop] at h
    simp [Piece.names, h]
  | divide numerator denominator =>
    simp [Piece.calls, Snippet.divide, Snippet.divideLoop] at h
    simp [Piece.names, h]

theorem address?_write {p : Program} {piece : Piece} {name : String} {addr : UInt16}
    (h : (p.write piece).address? name = some addr) :
    p.address? name = some addr ∨ piece = .call (.setLabel name) ∨ name ∈ piece.names p := by
  obtain ⟨done, hdone, hq⟩ := p.perform_eq_attemptAll (piece.calls p)
  rw [write, hq] at h
  rcases marks_of_address? h with h | ⟨t, ht⟩
  · exact .inl h
  · exact .inr (setLabel_mem_calls (hdone.subset (setLabel_mem_of_marks ht)))

theorem free_write {p : Program} (h : p.Free) {piece : Piece} (hspares : piece.Spares) :
    (p.write piece).Free := by
  intro stem hstem n hn
  have hminted : p.minted ≤ (p.write piece).minted := (p.extends_perform _).minted_le
  cases haddr : (p.write piece).address? (mintedName stem n) with
  | none => rfl
  | some addr =>
    rcases address?_write haddr with hold | hset | hname
    · rw [h stem hstem n (by omega)] at hold
      contradiction
    · exact absurd hset (hspares stem hstem n)
    · obtain ⟨stem', n', hsame, -, hlt⟩ := mem_names hname
      obtain ⟨-, rfl⟩ := mintedName_inj hsame
      omega

theorem free_writeAll {p : Program} (h : p.Free) {pieces : List Piece}
    (hspares : ∀ piece ∈ pieces, piece.Spares) : (p.writeAll pieces).Free := by
  induction pieces generalizing p with
  | nil => exact h
  | cons piece pieces ih =>
    rw [List.forall_mem_cons] at hspares
    exact ih (free_write h hspares.1) hspares.2

end Program

end M6502
