import M6502.Proofs.Program.Unlabelled
import M6502.Proofs.Source.Described

/-!
# Listings as programs

Following the orders of a listing appends its items again, data one byte at a
time. Where no item refers to a label, the bytes are the same, whichever way
the data were cut.
-/

set_option autoImplicit false

namespace M6502

namespace Program

def extend (p : Program) (items : List Item) : Program :=
  items.foldl Program.append p

theorem extend_append (p : Program) (xs ys : List Item) :
    p.extend (xs ++ ys) = (p.extend xs).extend ys :=
  List.foldl_append

@[simp]
theorem size_extend (p : Program) (items : List Item) : (p.extend items).size = p.size := by
  induction items generalizing p with
  | nil => rfl
  | cons item items ih => exact ih (p.append item)

theorem items_extend (p : Program) (items : List Item) :
    (p.extend items).items.toList = p.items.toList ++ items := by
  induction items generalizing p with
  | nil => exact (List.append_nil _).symm
  | cons item items ih =>
    have h : (p.extend (item :: items)).items.toList = (p.append item).items.toList ++ items :=
      ih (p.append item)
    rw [h, Program.append, Array.toList_push, List.append_assoc]
    rfl

theorem items_extend_empty (size : Nat) (items : List Item) :
    ((empty size).extend items).items.toList = items :=
  (empty size).items_extend items

end Program

theorem put_byte (p : Program) (b : UInt8) : p.put b.toNat = .ok (p.putBytes [b]) := by
  have hb := b.toNat_lt
  have hfit : (0 : Int) ≤ b.toNat ∧ (b.toNat : Int) ≤ 255 := by omega
  rw [Program.put, if_pos hfit, Int.toNat_natCast, UInt8.ofNat_toNat]

theorem instruct_listable (p : Program) {i : Instruction} (h : i.Listable) :
    p.instruct i.encoding i.operand = .ok (p.append (.instruction i)) := by
  refine p.instruct_of_holds fun v hv => ?_
  rw [Instruction.Listable, hv] at h
  exact h.2

theorem follow_bytes (p : Program) (bs : List UInt8) :
    p.follow (bs.map fun b => .ok (.put b.toNat)) =
      .ok (p.extend (bs.map fun b => .data (.bytes [b]))) := by
  induction bs generalizing p with
  | nil => rfl
  | cons b bs ih =>
    rw [List.map_cons, Program.follow, Call.apply, put_byte]
    exact ih (p.putBytes [b])

/-- The calls that an item's line orders append its pieces. -/
theorem follow_calls (p : Program) {item : Item} (h : item.Listable) :
    p.follow (item.calls.map .ok) = .ok (p.extend item.pieces) := by
  cases item with
  | instruction i =>
    rw [Item.calls, List.map_singleton, Program.follow, Call.apply, instruct_listable p h]
    rfl
  | data d =>
    cases d with
    | bytes bs =>
      rw [Item.calls, List.map_map]
      exact follow_bytes p bs
    | label name => rfl
    | displacement name => exact h.elim
  | seek target => exact h.elim

namespace Source

theorem follow_listing (p : Program) (first : Nat) {items : List Item}
    (h : ∀ item ∈ items, item.Listable) :
    p.follow (readFrom first (items.map Item.line)) =
      .ok (p.extend (items.flatMap Item.pieces)) := by
  induction items generalizing p first with
  | nil => rfl
  | cons item items ih =>
    rw [List.forall_mem_cons] at h
    rw [List.map_cons, readFrom, readLine_line first h.1, Program.follow_append,
      follow_calls p h.1, List.flatMap_cons, Program.extend_append]
    exact ih (p.extend item.pieces) (first + 1) h.2

/-- Lines of listable items describe the program of their pieces. -/
theorem parseLines_listing (size : Nat) {items : List Item} (h : ∀ item ∈ items, item.Listable) :
    parseLines size (items.map Item.line) =
      .ok ((Program.empty size).extend (items.flatMap Item.pieces)) :=
  follow_listing (Program.empty size) 1 h

end Source

theorem Item.literalBytes_pieces (item : Item) :
    item.pieces.flatMap Item.literalBytes = item.literalBytes := by
  have hone (item : Item) : [item].flatMap Item.literalBytes = item.literalBytes := by
    rw [List.flatMap_cons, List.flatMap_nil, List.append_nil]
  cases item with
  | instruction i => exact hone _
  | data d =>
    cases d with
    | bytes bs =>
      show (bs.map fun b => Item.data (.bytes [b])).flatMap Item.literalBytes = bs
      rw [List.flatMap_map]
      exact List.flatMap_singleton' bs
    | label name => exact hone _
    | displacement name => exact hone _
  | seek target => exact hone _

theorem literalBytes_flatMap_pieces (items : List Item) :
    (items.flatMap Item.pieces).flatMap Item.literalBytes = items.flatMap Item.literalBytes := by
  rw [List.flatMap_assoc]
  exact List.flatMap_congr fun item _ => item.literalBytes_pieces

theorem Item.unit_of_listable {item : Item} (h : item.Listable) : item.isUnit = true := by
  cases item with
  | instruction i => rfl
  | data d => rfl
  | seek target => exact h.elim

theorem Item.pieces_unlabelled {item piece : Item} (h : item.Listable)
    (hr : item.reference? = none) (hp : piece ∈ item.pieces) :
    piece.isUnit = true ∧ piece.reference? = none := by
  have hself (he : piece ∈ [item]) : piece.isUnit = true ∧ piece.reference? = none := by
    rw [List.mem_singleton.1 he]
    exact ⟨unit_of_listable h, hr⟩
  cases item with
  | instruction i => exact hself hp
  | data d =>
    cases d with
    | bytes bs =>
      obtain ⟨b, -, rfl⟩ := List.mem_map.1 hp
      exact ⟨rfl, rfl⟩
    | label name => contradiction
    | displacement name => contradiction
  | seek target => exact h.elim

theorem build_extend_pieces {size : Nat} {items : List Item} (h : ∀ item ∈ items, item.Listable)
    (hr : ∀ item ∈ items, item.reference? = none) {clamp : Bool} {bytes : Array UInt8} :
    ((Program.empty size).extend (items.flatMap Item.pieces)).build clamp = .ok bytes ↔
      (items.flatMap Item.literalBytes).length ≤ size ∧
        bytes = fitted (if clamp then (items.flatMap Item.literalBytes).length else size)
          (items.flatMap Item.literalBytes).toArray := by
  have hpieces : ∀ piece ∈ items.flatMap Item.pieces,
      piece.isUnit = true ∧ piece.reference? = none := by
    intro piece hp
    obtain ⟨item, hi, hp⟩ := List.mem_flatMap.1 hp
    exact Item.pieces_unlabelled (h item hi) (hr item hi) hp
  have hsize : ((Program.empty size).extend (items.flatMap Item.pieces)).size = size :=
    (Program.empty size).size_extend _
  rw [← Program.items_extend_empty size (items.flatMap Item.pieces)] at hpieces
  rw [Program.build_literal (fun piece hp => (hpieces piece hp).1) fun piece hp =>
    (hpieces piece hp).2, Program.items_extend_empty, hsize, literalBytes_flatMap_pieces]

theorem Instruction.listable_of_literal {i : Instruction} (h : i.IsLiteral) : i.Listable := by
  obtain ⟨w, hw, ho⟩ := h
  obtain ⟨e, operand⟩ := i
  have ho : operand = e.literalOperand w := ho
  by_cases hs : e.size = 1
  · rw [ho, Encoding.literalOperand_none hs]
    exact hs
  · rw [ho, Encoding.literalOperand_value hs]
    exact ⟨hs, hw⟩

namespace Source

/-- The listing of items reads back as their pieces, and without labels the program that was read
builds to the same bytes. This covers what a sweep returns and every program that was read. -/
theorem listing_reads_back :
    (∀ (size : Nat) (items : List Item), (∀ item ∈ items, item.Listable) →
      ∃ q, parseLines size (items.map Item.line) = .ok q ∧
        q.items.toList = items.flatMap Item.pieces ∧
        ((∀ item ∈ items, item.reference? = none) →
          ∀ p : Program, p.size = size → p.items.toList = items → ∀ clamp bytes,
            p.build clamp = .ok bytes ↔ q.build clamp = .ok bytes)) ∧
      (∀ (bytes : Array UInt8) (start : Nat), ∀ i ∈ disassemble bytes start,
        (Item.instruction i).Listable) ∧
      ∀ (size : Nat) (lines : List (List Char)) (p : Program), parseLines size lines = .ok p →
        ∀ item ∈ p.items.toList, item.Listable := by
  constructor
  · intro size items h
    have hbuild (hr : ∀ item ∈ items, item.reference? = none) (p : Program) (hs : p.size = size)
        (hp : p.items.toList = items) (clamp : Bool) (bytes : Array UInt8) :
        p.build clamp = .ok bytes ↔
          ((Program.empty size).extend (items.flatMap Item.pieces)).build clamp = .ok bytes := by
      subst hp
      have hu : ∀ item ∈ p.items.toList, item.isUnit = true := by
        intro item hi
        exact Item.unit_of_listable (h item hi)
      rw [build_extend_pieces h hr, Program.build_literal hu hr, hs]
    exact ⟨_, parseLines_listing size h, Program.items_extend_empty size _, hbuild⟩
  constructor
  · intro bytes start i hi
    exact Instruction.listable_of_literal (literal_of_mem_disassemble hi)
  · intro size lines p hp
    exact listable_of_parseLines hp

/-- A label with the name of an index register, and data that are cut into bytes. -/
theorem listing_reads_back_indexed :
    ∃ q, parseLines 8 ["lda x,x".toList, ".byte $01, $ff".toList] = .ok q ∧
      q.items.toList = [.instruction ⟨.of .lda .absoluteX, .label "x"⟩,
        .data (.bytes [0x01]), .data (.bytes [0xFF])] := by
  have h : ∀ item ∈ [Item.instruction ⟨.of .lda .absoluteX, .label "x"⟩,
      .data (.bytes [0x01, 0xFF])], item.Listable := by
    rw [List.forall_mem_cons, List.forall_mem_singleton]
    constructor
    · exact ⟨by decide +kernel, by decide⟩
    · exact List.cons_ne_nil _ _
  obtain ⟨q, hq, hi, -⟩ := listing_reads_back.1 8 _ h
  exact ⟨q, (congrArg (parseLines 8) (by decide +kernel)).trans hq, hi⟩

end Source

end M6502
