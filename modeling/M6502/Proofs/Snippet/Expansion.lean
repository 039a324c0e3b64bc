import M6502.Proofs.Program.Operands
import M6502.Proofs.Snippet.Copy
import M6502.Proofs.Snippet.Divide
import M6502.Proofs.Snippet.Pieces
import Mathlib.Data.List.Infix

/-!
# Snippets always assemble

The code of a snippet refers to labels of its own only, and they are near
wherever the code stands. So it can be written as soon as its labels are new,
and its branches have their bytes as soon as the origin stays where it is and
no address wraps around.
-/

set_option autoImplicit false

namespace M6502

open Program Snippet

theorem Item.reference?_of_displaced? {item : Item} {name : String}
    (h : item.displaced? = some name) : item.reference? = some name := by
  cases item with
  | instruction i =>
    obtain ⟨e, operand⟩ := i
    cases operand with
    | displacement other => exact h
    | none | value | label => contradiction
  | data d =>
    cases d with
    | displacement other => exact h
    | bytes | label => contradiction
  | seek target => contradiction

theorem Call.setsOrigin_of_isCode {c : Call} (h : c.isCode = true) : c.setsOrigin = false := by
  cases c with
  | setOrigin addr => contradiction
  | _ => rfl

namespace Snippet

theorem laid_subset_append (position : Nat) (cs ds : List Call) :
    laid position cs ⊆ laid position (cs ++ ds) := by
  induction cs generalizing position with
  | nil => exact List.nil_subset _
  | cons c cs ih =>
    cases c with
    | instruct e operand => exact List.cons_subset_cons _ (ih _)
    | _ => exact ih position

theorem labelled_halting (position : Nat) (calls : List Call) :
    labelled position (halting calls) = labelled position calls := by
  induction calls generalizing position with
  | nil => rfl
  | cons c calls ih =>
    cases c with
    | instruct e operand => exact ih _
    | setLabel name => exact congrArg (List.cons _) (ih position)
    | _ => exact ih position

structure SelfContained (position : Nat) (calls : List Call) : Prop where
  code : ∀ c ∈ calls, c.isCode = true
  fits : ∀ u ∈ laid position calls, u.item.Fits
  distinct : ((labelled position calls).map Prod.fst).Nodup
  reaches : ∀ u ∈ laid position calls, ∀ name, u.item.displaced? = some name →
    ∃ t, (name, t) ∈ labelled position calls ∧ u.position ≤ t + 126 ∧ t ≤ u.position + 129

theorem SelfContained.of_halting {position : Nat} {calls : List Call}
    (h : SelfContained position (halting calls)) : SelfContained position calls := by
  have hlaid : laid position calls ⊆ laid position (halting calls) :=
    laid_subset_append position calls _
  obtain ⟨hcode, hfits, hdistinct, hreaches⟩ := h
  rw [labelled_halting] at hdistinct hreaches
  exact ⟨fun c hc => hcode c (List.mem_append_left _ hc), fun u hu => hfits u (hlaid hu), hdistinct,
    fun u hu => hreaches u (hlaid hu)⟩

theorem selfContained_copy (p : Program) (dst src : UInt16) (len : UInt8) (position : Nat) :
    SelfContained position (copy p dst src len) := by
  refine .of_halting ⟨isCode_copy p dst src len, ?_, ?_, ?_⟩
  · have hlen : len.toNat ≤ 255 := Nat.le_of_lt_succ len.toNat_lt
    rw [laid_copy]
    simp [Item.Fits, Encoding.Holds, AddressingMode.size, AddressingMode.operandSize, hlen]
  · rw [labelled_copy]
    exact List.nodup_singleton _
  · rw [laid_copy, labelled_copy]
    simp [Item.displaced?, Nat.add_assoc]

theorem selfContained_divide (p : Program) (num den : UInt16) (position : Nat) :
    SelfContained position (divide p num den) := by
  refine .of_halting ⟨isCode_divide p num den, ?_, ?_, ?_⟩
  · rw [laid_divide]
    simp [Item.Fits, Encoding.Holds, AddressingMode.size, AddressingMode.operandSize]
  · rw [labelled_divide]
    exact p.nodup_names (.divide num den)
  · rw [laid_divide, labelled_divide]
    simp [Item.displaced?, Nat.add_assoc]

end Snippet

namespace Program

/-- Code can be written when its labels are new. -/
theorem perform_code {p : Program} {calls : List Call} (hcode : ∀ c ∈ calls, c.isCode = true)
    (hfits : ∀ u ∈ laid p.position calls, u.item.Fits)
    (hdistinct : ((labelled p.position calls).map Prod.fst).Nodup)
    (hnew : ∀ m ∈ labelled p.position calls, p.address? m.1 = none) :
    (p.perform calls).1 = .ok () := by
  induction calls generalizing p with
  | nil => rfl
  | cons c calls ih =>
    rw [List.forall_mem_cons] at hcode
    cases c with
    | instruct e operand =>
      rw [laid, List.forall_mem_cons] at hfits
      rw [perform, Call.apply, p.instruct_of_holds hfits.1]
      exact ih hcode.2 hfits.2 hdistinct hnew
    | setLabel name =>
      rw [labelled, List.map_cons, List.nodup_cons] at hdistinct
      rw [labelled, List.forall_mem_cons] at hnew
      have hset : p.setLabel name = .ok { p with labels := p.labels.insert name p.here } := by
        rw [setLabel, hnew.1]
      rw [perform, Call.apply, hset]
      refine ih hcode.2 hfits hdistinct.2 fun m hm => ?_
      rw [address?_setLabel hset, if_neg]
      · exact hnew.2 m hm
      · intro hname
        have hmem : m.1 ∈ (labelled p.position calls).map Prod.fst := List.mem_map_of_mem hm
        rw [← hname] at hmem
        exact hdistinct.1 hmem
    | mint => exact ih hcode.2 hfits hdistinct hnew
    | _ => exact absurd hcode.1 Bool.false_ne_true

/-- The branches of code resolve, however the program goes on from it. -/
theorem resolves_code {p q r : Program} {calls : List Call} (h : SelfContained p.position calls)
    (hperform : p.perform calls = (.ok (), q)) (hr : q.Extends r) (horigin : r.origin = p.origin)
    (hspace : p.origin.toNat + q.position ≤ 0xFFFF) {u : Placement}
    (hu : u ∈ laid p.position calls) {name : String} (hd : u.item.displaced? = some name) :
    r.Resolves u.position u.item := by
  have hl := laid_of_perform h.code hperform
  obtain ⟨t, ht, hback, hforth⟩ := h.reaches u hu name hd
  have haddr := hr.address name _ (hl.address name t ht)
  have hnat : (UInt16.ofNat (p.origin.toNat + t)).toNat = p.origin.toNat + t := by
    have hle := hl.label_le name t ht
    rw [UInt16.toNat_ofNat']
    omega
  have hnear : r.Near u.position (UInt16.ofNat (p.origin.toNat + t)) := by
    rw [Near, distance, hnat, horigin]
    omega
  exact (resolves_displacement name (Item.reference?_of_displaced? hd) hd).2
    ⟨_, displacement_ok_iff.2 ⟨_, haddr, hnear, rfl⟩⟩

end Program

namespace Piece

def setsOrigin : Piece → Bool
  | .call c => c.setsOrigin
  | .name _ | .copy _ _ _ | .divide _ _ => false

def settlesOrigin : Piece → Bool
  | .call c => c.settlesOrigin
  | .name _ => false
  | .copy _ _ _ | .divide _ _ => true

def OriginFirst (pieces : List Piece) : Prop :=
  pieces.Pairwise fun a b => a.settlesOrigin = true → b.setsOrigin = false

theorem selfContained_of_isSnippet {piece : Piece} (h : piece.isSnippet = true) (p : Program)
    (position : Nat) : SelfContained position (piece.calls p) := by
  cases piece with
  | call | name => contradiction
  | copy dst src len => exact selfContained_copy p dst src len position
  | divide numerator denominator => exact selfContained_divide p numerator denominator position

theorem settlesOrigin_of_isSnippet {piece : Piece} (h : piece.isSnippet = true) :
    piece.settlesOrigin = true ∧ piece.setsOrigin = false := by
  cases piece with
  | call | name => contradiction
  | copy | divide => exact ⟨rfl, rfl⟩

theorem label_of_isSnippet {piece : Piece} (h : piece.isSnippet = true) {p : Program}
    {position : Nat} {m : String × Nat} (hm : m ∈ labelled position (piece.calls p)) :
    ∃ stem ∈ stems, ∃ n, p.minted ≤ n ∧ m.1 = mintedName stem n := by
  rw [← labelled_halting] at hm
  cases piece with
  | call | name => contradiction
  | copy dst src len =>
    rw [calls, labelled_copy] at hm
    rw [List.mem_singleton.1 hm]
    exact ⟨"copy_loop", by decide, p.minted, Nat.le_refl _, rfl⟩
  | divide numerator denominator =>
    rw [calls, labelled_divide] at hm
    rcases List.mem_cons.1 hm with rfl | hm
    · exact ⟨"div_bit", by decide, p.minted, Nat.le_refl _, rfl⟩
    · rw [List.mem_singleton.1 hm]
      exact ⟨"div_skip", by decide, p.minted + 1, Nat.le_succ _, rfl⟩

theorem setsOrigin_calls {piece : Piece} (h : piece.setsOrigin = false) (p : Program) :
    ∀ c ∈ piece.calls p, c.setsOrigin = false := by
  intro c hc
  cases piece with
  | call d =>
    rw [List.mem_singleton.1 hc]
    exact h
  | name stem =>
    rw [List.mem_singleton.1 hc]
    rfl
  | copy dst src len =>
    exact Call.setsOrigin_of_isCode ((selfContained_copy p dst src len 0).code c hc)
  | divide numerator denominator =>
    exact Call.setsOrigin_of_isCode ((selfContained_divide p numerator denominator 0).code c hc)

end Piece

namespace Program

theorem origin_write {piece : Piece} (h : piece.setsOrigin = false) (p : Program) :
    (p.write piece).origin = p.origin := by
  obtain ⟨done, hdone, hq⟩ := p.perform_eq_attemptAll (piece.calls p)
  rw [write, hq]
  exact origin_attemptAll (fun c hc => piece.setsOrigin_calls h p c (hdone.subset hc)) p

theorem origin_writeAll {pieces : List Piece} (h : ∀ piece ∈ pieces, piece.setsOrigin = false)
    (p : Program) : (p.writeAll pieces).origin = p.origin := by
  induction pieces generalizing p with
  | nil => rfl
  | cons piece pieces ih =>
    rw [List.forall_mem_cons] at h
    exact (ih h.2 (p.write piece)).trans (origin_write h.1 p)

theorem free_empty (size : Nat) : (empty size).Free :=
  fun _ _ _ _ => address?_empty size _

theorem perform_snippet {p : Program} (hfree : p.Free) {piece : Piece}
    (h : piece.isSnippet = true) : p.perform (piece.calls p) = (.ok (), p.write piece) := by
  obtain ⟨hcode, hfits, hdistinct, -⟩ := piece.selfContained_of_isSnippet h p p.position
  refine Prod.ext (perform_code hcode hfits hdistinct fun m hm => ?_) rfl
  obtain ⟨stem, hstem, n, hn, hname⟩ := piece.label_of_isSnippet h hm
  rw [hname]
  exact hfree stem hstem n hn

def Addressable (size : Nat) (pieces : List Piece) : Prop :=
  ∀ before, before <+: pieces →
    ((empty size).writeAll before).origin.toNat + ((empty size).writeAll before).position ≤ 0xFFFF

structure Expands (size : Nat) (pieces : List Piece) (p : Program) (piece : Piece) : Prop where
  split : ∃ before after, pieces = before ++ piece :: after ∧ p = (empty size).writeAll before
  isSnippet : piece.isSnippet = true

namespace Expands

variable {size : Nat} {pieces : List Piece} {p : Program} {piece : Piece}

theorem perform_eq (h : Expands size pieces p piece) (hspares : ∀ a ∈ pieces, a.Spares) :
    p.perform (piece.calls p) = (.ok (), p.write piece) := by
  obtain ⟨⟨before, after, rfl, rfl⟩, hsnippet⟩ := h
  refine perform_snippet (free_writeAll (free_empty size) fun a ha => ?_) hsnippet
  exact hspares a (List.mem_append_left _ ha)

theorem extends_final (h : Expands size pieces p piece) :
    (p.write piece).Extends ((empty size).writeAll pieces) := by
  obtain ⟨before, after, rfl, rfl⟩ := h.split
  rw [writeAll_append]
  exact extends_writeAll _ after

theorem origin_final (h : Expands size pieces p piece) (hfirst : Piece.OriginFirst pieces) :
    ((empty size).writeAll pieces).origin = p.origin := by
  obtain ⟨⟨before, after, rfl, rfl⟩, hsnippet⟩ := h
  obtain ⟨hsettles, hsets⟩ := piece.settlesOrigin_of_isSnippet hsnippet
  rw [Piece.OriginFirst, List.pairwise_append, List.pairwise_cons] at hfirst
  rw [writeAll_append]
  exact (origin_writeAll (fun b hb => hfirst.2.1.1 b hb hsettles) _).trans (origin_write hsets _)

theorem room (h : Expands size pieces p piece) (hspace : Addressable size pieces) :
    p.origin.toNat + (p.write piece).position ≤ 0xFFFF := by
  obtain ⟨⟨before, after, rfl, rfl⟩, hsnippet⟩ := h
  obtain ⟨-, hsets⟩ := piece.settlesOrigin_of_isSnippet hsnippet
  have hend := hspace (before ++ [piece]) ⟨after, by rw [List.append_assoc]; rfl⟩
  rw [writeAll_append] at hend
  rw [← origin_write hsets]
  exact hend

/-- What a snippet wrote is laid out with the rest. -/
theorem placements_subset (h : Expands size pieces p piece)
    (hwritten : p.perform (piece.calls p) = (.ok (), p.write piece)) :
    p.placements (piece.calls p) ⊆
      Placement.replay 0 ((empty size).writeAll pieces).items.toList := by
  obtain ⟨before, after, rfl, rfl⟩ := h.split
  obtain ⟨front, hfront⟩ := (empty size).writeAll_eq_attemptAll before
  obtain ⟨back, hback⟩ := (((empty size).writeAll before).write piece).writeAll_eq_attemptAll after
  have hfinal : (empty size).writeAll (before ++ piece :: after) =
      (empty size).attemptAll (front ++ (piece.calls ((empty size).writeAll before) ++ back)) := by
    rw [writeAll_append, attemptAll_append, attemptAll_append, ← hfront,
      attemptAll_of_perform hwritten, ← hback]
    rfl
  rw [hfinal, ← placements_empty, placements_append, placements_append, ← hfront]
  intro u hu
  exact List.mem_append_right _ (List.mem_append_left _ hu)

end Expands

def SnippetReference (size : Nat) (pieces : List Piece) (u : Placement) : Prop :=
  ∃ p piece, Expands size pieces p piece ∧ u ∈ p.placements (piece.calls p) ∧
    u.item.displaced?.isSome = true

/-- A distance that a snippet states is laid out with the rest, and its label is near. -/
theorem resolves_snippetReference {size : Nat} {pieces : List Piece}
    (hspares : ∀ piece ∈ pieces, piece.Spares) (hfirst : Piece.OriginFirst pieces)
    (hspace : Addressable size pieces) (u : Placement) (h : SnippetReference size pieces u) :
    u ∈ Placement.replay 0 ((empty size).writeAll pieces).items.toList ∧
      ((empty size).writeAll pieces).Resolves u.position u.item := by
  obtain ⟨p, piece, hexpands, hu, hd⟩ := h
  obtain ⟨name, hd⟩ := Option.isSome_iff_exists.1 hd
  have hwritten := hexpands.perform_eq hspares
  have hcode := piece.selfContained_of_isSnippet hexpands.isSnippet p p.position
  refine ⟨hexpands.placements_subset hwritten hu, ?_⟩
  rw [(laid_of_perform hcode.code hwritten).placements_eq] at hu
  exact resolves_code hcode hwritten hexpands.extends_final (hexpands.origin_final hfirst)
    (hexpands.room hspace) hu hd

/-- No name is made up twice while a program is written, whatever the stems end in. When no call
sets a label that a snippet may want, all snippets can be written. When moreover the origin comes
first and no address wraps around, the distances that snippets state can be laid out: a build that
fails does so at another item, or because an item has no room. -/
theorem expansions_assemble (size : Nat) (pieces : List Piece) :
    let p := (empty size).writeAll pieces
    ((empty size).namesGiven pieces).Nodup ∧
    ((∀ piece ∈ pieces, piece.Spares) →
      (∀ q piece, Expands size pieces q piece → (q.perform (piece.calls q)).1 = .ok ()) ∧
      (Piece.OriginFirst pieces → Addressable size pieces →
        (∀ u, SnippetReference size pieces u →
          u ∈ Placement.replay 0 p.items.toList ∧ p.Resolves u.position u.item) ∧
        ∀ clamp e, p.build clamp = .error e → ∃ u ∈ Placement.replay 0 p.items.toList,
          (¬ SnippetReference size pieces u ∧ p.encode u.position u.item = .error e) ∨
            e = .overflow u.position size)) := by
  intro p
  refine ⟨(empty size).nodup_namesGiven pieces, fun hspares => ⟨?_, fun hfirst hspace => ?_⟩⟩
  · intro q piece hexpands
    rw [hexpands.perform_eq hspares]
  · have hresolves := resolves_snippetReference hspares hfirst hspace
    refine ⟨hresolves, ?_⟩
    intro clamp e hbuild
    obtain ⟨u, hu, herror⟩ := build_error hbuild
    refine ⟨u, hu, herror.imp (fun he => ⟨?_, he⟩) fun he => ?_⟩
    · intro href
      obtain ⟨bs, hbs⟩ := encode_ok_iff.2 (hresolves u href).2
      rw [hbs] at he
      contradiction
    · rw [he, ((empty size).extends_writeAll pieces).size_eq]
      rfl

def mixedPieces : List Piece :=
  [.call (.setOrigin 0x8000), .copy 0x10 0x8000 3, .name "copy_loop_0",
    .call (.setLabel (mintedName "copy_loop_0" 1)), .divide 0x10 0x11, .copy 0x20 0x10 0]

theorem expansions_assemble_mixed :
    ∃ p, Expands 64 mixedPieces p (.copy 0x10 0x8000 3) ∧
      (p.perform (copy p 0x10 0x8000 3)).1 = .ok () ∧
      ((empty 64).writeAll mixedPieces).Resolves 11
        (.instruction ⟨.of .bne .relative, .displacement (mintedName "copy_loop" 0)⟩) := by
  have hspares : ∀ piece ∈ mixedPieces, piece.Spares := by
    have hother {piece : Piece} (h : ∀ name, piece ≠ .call (.setLabel name)) : piece.Spares :=
      fun _ _ _ => h _
    have hlabel : (Piece.call (.setLabel (mintedName "copy_loop_0" 1))).Spares := by
      intro stem hstem n hsame
      obtain ⟨rfl, -⟩ := mintedName_inj (Call.setLabel.inj (Piece.call.inj hsame))
      exact absurd hstem (by decide)
    simp only [mixedPieces, List.forall_mem_cons]
    exact ⟨hother nofun, hother nofun, hother nofun, hlabel, hother nofun, hother nofun,
      List.forall_mem_nil _⟩
  have hfirst : Piece.OriginFirst mixedPieces := by
    simp [Piece.OriginFirst, mixedPieces, Piece.setsOrigin, Call.setsOrigin]
  have hspace : ∀ before ∈ mixedPieces.inits, ((empty 64).writeAll before).origin.toNat +
      ((empty 64).writeAll before).position ≤ 0xFFFF := by
    decide +kernel
  have hcopy : Expands 64 mixedPieces ((empty 64).writeAll [.call (.setOrigin 0x8000)])
      (.copy 0x10 0x8000 3) :=
    ⟨⟨_, mixedPieces.drop 2, rfl, rfl⟩, rfl⟩
  obtain ⟨hwritten, hbuild⟩ := (expansions_assemble 64 mixedPieces).2 hspares
  obtain ⟨hresolves, -⟩ := hbuild hfirst fun before h => hspace before ((List.mem_inits _ _).2 h)
  exact ⟨_, hcopy, hwritten _ _ hcopy, (hresolves ⟨11, _⟩ ⟨_, _, hcopy, by decide +kernel, rfl⟩).2⟩

end Program

end M6502
