import M6502.Proofs.Source.Listing

/-!
# What source text describes

Every call that source text orders appends listable items or none: the operand
of an instruction is what the mode of its encoding admits, a label is an
identifier folded to lower case, and data are never empty. So every program
that is read is listable throughout.
-/

set_option autoImplicit false

namespace M6502

open Text

theorem Literal.read?_name {s t : List Char} (h : Literal.read? s = some (.name t)) :
    t = s ∧ isIdent s = true := by
  unfold Literal.read? at h
  split at h
  · obtain ⟨n, -, hn⟩ := Option.map_eq_some_iff.1 h
    contradiction
  · obtain ⟨n, -, hn⟩ := Option.map_eq_some_iff.1 h
    contradiction
  · contradiction
  · split at h
    · obtain ⟨n, -, hn⟩ := Option.map_eq_some_iff.1 h
      contradiction
    · split at h
      · rename_i hi
        cases h
        exact ⟨rfl, hi⟩
      · contradiction

namespace AddressingMode

theorem not_hexLiteral_of_ident {least most : Nat} {s : List Char} (h : isIdent s = true) :
    isHexLiteral least most s = false := by
  obtain ⟨c, t, rfl, hc, -⟩ := isIdent_chars h
  unfold isHexLiteral
  split
  · rename_i heq
    cases heq
    contradiction
  · rfl

theorem not_immediate_of_ident {s : List Char} (h : isIdent s = true) :
    AddressingMode.immediate.admits s = false := by
  have hhex := @not_hexLiteral_of_ident 1 2 _ h
  obtain ⟨c, t, rfl, hc, -⟩ := isIdent_chars h
  have hdecimal : isDecimalLiteral (c :: t) = false := by
    simp [isDecimalLiteral, not_digit_of_start hc]
  have hbinary : isBinaryLiteral (c :: t) = false := by
    unfold isBinaryLiteral
    split
    · rename_i heq
      cases heq
      contradiction
    · rfl
  simp [admits, hhex, hdecimal, hbinary]

/-- Only branches and the modes that take labels admit an identifier. -/
theorem takesLabel_of_ident {m : AddressingMode} {s : List Char} (h : isIdent s = true)
    (ha : m.admits s = true) (hm : m ≠ .relative) : m.takesLabel = true := by
  have hnarrow := @not_hexLiteral_of_ident 1 2 _ h
  have hne : s ≠ [] := by
    rintro rfl
    contradiction
  cases m with
  | implied => exact absurd (List.isEmpty_iff.1 ha) hne
  | immediate => rw [not_immediate_of_ident h] at ha; contradiction
  | relative => contradiction
  | absolute => rfl
  | absoluteX => rfl
  | absoluteY => rfl
  | indirect => rfl
  | zeroPage => exact absurd ha (by rw [admits, isNarrowTarget, hnarrow]; decide)
  | zeroPageX => exact absurd ha (by rw [admits, isNarrowTarget, hnarrow]; decide)
  | zeroPageY => exact absurd ha (by rw [admits, isNarrowTarget, hnarrow]; decide)
  | indirectX => exact absurd ha (by rw [admits, isNarrowTarget, hnarrow]; decide)
  | indirectY => exact absurd ha (by rw [admits, isNarrowTarget, hnarrow]; decide)

theorem eq_implied_of_write_nil {m : AddressingMode} {arg : List Char} (ha : m.admits arg = true)
    (h : m.write arg = []) : m = .implied := by
  by_contra hm
  apply admits_ne_nil hm ha
  rw [write_eq] at h
  exact (List.append_eq_nil_iff.1 (List.append_eq_nil_iff.1 h).2).1

theorem write_implied {arg : List Char} (ha : AddressingMode.implied.admits arg = true) :
    AddressingMode.implied.write arg = [] :=
  List.isEmpty_iff.1 ha

end AddressingMode

def Call.Described : Call → Prop
  | .instruct e operand => (⟨e, operand⟩ : Instruction).Listable
  | .putLabel name => isLowerIdent name.toList = true
  | .put _ | .putWord _ | .setLabel _ | .setOrigin _ => True
  | .add _ _ | .putBytes _ | .putText _ | .putDisplacement _ => False
  | .includeFile _ | .moveTo _ | .mint | .setVariable _ => False

namespace Source

theorem listable_of_operand? {e : Encoding} {text : List Char} {operand : Operand}
    (ha : e.mode.accepts text = true) (hl : ∀ c ∈ text, c.isUpper = false)
    (h : operand? e text = some operand) : (⟨e, operand⟩ : Instruction).Listable := by
  obtain ⟨arg, hadmits, rfl⟩ := (e.mode.accepts_iff text).1 ha
  have hcore := AddressingMode.core_write (m := e.mode) (AddressingMode.admits_unmarked hadmits)
  rw [operand?, hcore] at h
  split at h
  · rename_i hempty
    cases h
    have hm := AddressingMode.eq_implied_of_write_nil hadmits (List.isEmpty_iff.1 hempty)
    show e.mode.size = 1
    rw [hm]
    rfl
  · rename_i hne
    have hm : e.mode ≠ .implied := by
      intro hm
      rw [hm] at hadmits hne
      rw [AddressingMode.write_implied hadmits] at hne
      exact hne rfl
    split at h
    · contradiction
    · rename_i n hn
      cases h
      constructor
      · intro hs
        exact hm (implied_of_size hs)
      · intro hs
        have hs : e.size = 2 := hs
        have hlt := Nat.mod_lt n (show 256 > 0 by decide)
        rw [if_pos hs, UInt16.toNat_ofNat']
        omega
    · rename_i name hname
      obtain ⟨rfl, hi⟩ := Literal.read?_name hname
      have hlower : isLowerIdent name = true := by
        apply isLowerIdent_of_chars hi
        intro c hc
        apply hl c
        rw [AddressingMode.write_eq]
        exact List.mem_append_right _ (List.mem_append_left _ hc)
      split at h
      · rename_i hrel
        cases h
        exact ⟨hrel, by rw [String.toList_ofList]; exact hlower⟩
      · rename_i hrel
        cases h
        exact ⟨AddressingMode.takesLabel_of_ident hi hadmits hrel,
          by rw [String.toList_ofList]; exact hlower⟩

theorem described_of_instruction {number : Nat} {s : List Char} {c : Call}
    (h : instruction number s = .ok c) : c.Described := by
  unfold instruction at h
  dsimp only at h
  split at h
  · contradiction
  · rename_i e he
    have ha := Encoding.accepts_of_select? he
    split at h
    · contradiction
    · rename_i operand ho
      cases h
      exact listable_of_operand? ha (lower_not_upper _) ho

theorem arguments_lower {s arg : List Char} (h : arg ∈ arguments s) :
    ∀ c ∈ arg, c.isUpper = false := by
  obtain ⟨part, -, rfl⟩ := List.mem_map.1 (List.mem_filter.1 h).1
  exact lower_not_upper _

theorem described_of_directive {number : Nat} {s : List Char} {c : Call}
    (h : .ok c ∈ directive number s) : c.Described := by
  unfold directive at h
  dsimp only at h
  split at h
  · split at h
    · split at h
      · cases Except.ok.inj (List.mem_singleton.1 h)
        trivial
      · exact absurd (List.mem_singleton.1 h) (by simp)
    · exact absurd (List.mem_singleton.1 h) (by simp)
  · obtain ⟨arg, -, horder⟩ := List.mem_map.1 h
    split at horder
    · cases horder
      trivial
    · contradiction
  · obtain ⟨arg, harg, horder⟩ := List.mem_map.1 h
    split at horder
    · cases horder
      trivial
    · rename_i name hname
      obtain ⟨rfl, hi⟩ := Literal.read?_name hname
      cases horder
      show isLowerIdent (String.ofList name).toList = true
      rw [String.toList_ofList]
      exact isLowerIdent_of_chars hi (arguments_lower harg)
    · contradiction
  · exact absurd (List.mem_singleton.1 h) (by simp)

theorem described_of_labelled {number : Nat} {s : List Char} {c : Call}
    (h : .ok c ∈ labelled number s) : c.Described := by
  have hdefinition (label : Option String)
      (hc : .ok c ∈ label.toList.map fun name => (.ok (.setLabel name) : Order)) :
      c.Described := by
    obtain ⟨name, -, hname⟩ := List.mem_map.1 hc
    cases hname
    trivial
  unfold labelled at h
  dsimp only at h
  split at h
  · exact hdefinition _ h
  · rcases List.mem_append.1 h with h | h
    · exact hdefinition _ h
    · exact described_of_instruction (List.mem_singleton.1 h).symm

theorem described_of_readLine {number : Nat} {line : List Char} {c : Call}
    (h : .ok c ∈ readLine number line) : c.Described := by
  unfold readLine at h
  split at h
  · exact absurd h List.not_mem_nil
  · exact described_of_directive h
  · exact described_of_labelled h

theorem described_of_readFrom {first : Nat} {lines : List (List Char)} {c : Call}
    (h : .ok c ∈ readFrom first lines) : c.Described := by
  induction lines generalizing first with
  | nil => exact absurd h List.not_mem_nil
  | cons line lines ih =>
    rcases List.mem_append.1 h with h | h
    · exact described_of_readLine h
    · exact ih h

end Source

namespace Program

def Listable (p : Program) : Prop :=
  ∀ item ∈ p.items.toList, item.Listable

theorem Listable.append {p : Program} (hp : p.Listable) {item : Item} (h : item.Listable) :
    (p.append item).Listable := by
  intro other ho
  rw [Program.append, Array.toList_push, List.mem_append, List.mem_singleton] at ho
  rcases ho with ho | rfl
  · exact hp other ho
  · exact h

theorem Listable.apply {p q : Program} (hp : p.Listable) {c : Call} (hc : c.Described)
    (h : c.apply p = .ok q) : q.Listable := by
  cases c with
  | instruct e operand =>
    rw [instruct_ok h]
    exact hp.append hc
  | put value =>
    rw [put_ok h]
    exact hp.append (List.cons_ne_nil _ _)
  | putWord value =>
    rw [← Except.ok.inj h]
    exact hp.append (List.cons_ne_nil _ _)
  | putLabel name =>
    rw [← Except.ok.inj h]
    exact hp.append hc
  | setLabel name =>
    obtain ⟨-, rfl⟩ := setLabel_ok h
    exact hp
  | setOrigin addr =>
    rw [← Except.ok.inj h]
    exact hp
  | _ => exact hc.elim

theorem Listable.follow {p q : Program} (hp : p.Listable) {orders : List Order}
    (hc : ∀ c, .ok c ∈ orders → c.Described) (h : p.follow orders = .ok q) : q.Listable := by
  induction orders generalizing p with
  | nil =>
    rw [← Except.ok.inj h]
    exact hp
  | cons order orders ih =>
    cases order with
    | error e => contradiction
    | ok c =>
      rw [Program.follow] at h
      split at h
      · rename_i r hr
        have hrest : ∀ d, .ok d ∈ orders → d.Described := by
          intro d hd
          exact hc d (List.mem_cons_of_mem _ hd)
        exact ih (hp.apply (hc c List.mem_cons_self) hr) hrest h
      · contradiction

end Program

/-- A program that was read can be listed and read back. -/
theorem Source.listable_of_parseLines {size : Nat} {lines : List (List Char)} {p : Program}
    (h : parseLines size lines = .ok p) : p.Listable := by
  have hempty : (Program.empty size).Listable := by
    intro item hitem
    exact absurd hitem List.not_mem_nil
  apply hempty.follow _ h
  intro c hc
  exact described_of_readFrom hc

end M6502
