import M6502.Program.Call

/-!
# Programs that are changed in place

The calls once more, as work on one program whose fields are written one after
the other, with each check in its turn. An error keeps what was written before
it, so that a call which fails leaves the program alone is no matter of course
here. In place or not, the calls come to the same.
-/

set_option autoImplicit false

namespace M6502

namespace Program

theorem slot?_eq_none_iff {p : Program} {name : String} :
    p.slot? name = none ↔ name ∉ p.zeroPage := by
  rw [slot?, Option.map_eq_none_iff, List.idxOf?_eq_none_iff]

theorem slot?_append_self {p : Program} {name : String} (h : name ∉ p.zeroPage) :
    ({ p with zeroPage := p.zeroPage ++ [name] } : Program).slot? name =
      some (UInt8.ofNat p.zeroPage.length) := by
  have hidx : (p.zeroPage ++ [name]).idxOf? name = some p.zeroPage.length := by
    rw [List.idxOf?, List.findIdx?_append, ← List.idxOf?, List.idxOf?_eq_none_iff.2 h]
    simp
  rw [slot?, hidx, Option.map_some]

end Program

abbrev Builder (α : Type) : Type :=
  ExceptT ProgramError (StateM Program) α

namespace Builder

open Program (characterByte slots)

def on {α : Type} (b : Builder α) (p : Program) : Except ProgramError α × Program :=
  StateT.run (ExceptT.run b) p

def append (item : Item) : Builder Unit := do
  modify fun p => { p with position := item.advance p.position }
  modify fun p => { p with items := p.items.push item }

def instruct (e : Encoding) (operand : Operand) : Builder Unit := do
  if let .value v := operand then
    if e.size = 2 ∧ 0xFF < v.toNat then throw (.outOfRange v.toNat)
  append (.instruction ⟨e, operand⟩)

def add (name : String) (operand : Operand) : Builder Unit := do
  match Encoding.ofName? name with
  | none => throw (.unknownInstruction name)
  | some e => instruct e operand

def putBytes (bs : List UInt8) : Builder Unit :=
  append (.data (.bytes bs))

def put (value : Int) : Builder Unit := do
  unless 0 ≤ value ∧ value ≤ 255 do throw (.outOfRange value)
  putBytes [UInt8.ofNat value.toNat]

def putText (text : String) : Builder Unit := do
  let bs ← text.toList.mapM fun c => ofExcept (characterByte c)
  putBytes bs

def includeFile : Option (List UInt8) → Builder Unit
  | some bs => putBytes bs
  | none => throw .unreadable

def setLabel (name : String) : Builder Unit := do
  let p ← get
  if (p.address? name).isSome then throw (.labelRedefinition name)
  modify fun p => { p with labels := p.labels.insert name p.here }

def moveTo (addr : UInt16) : Builder Unit := do
  let p ← get
  if addr < p.origin then throw (.beforeOrigin addr p.origin)
  append (.seek (addr.toNat - p.origin.toNat))

def request (name : String) : Builder UInt8 := do
  let p ← get
  match p.slot? name with
  | some slot => return slot
  | none =>
    unless p.zeroPage.length < slots do throw (.zeroPageFull name)
    modify fun p => { p with zeroPage := p.zeroPage ++ [name] }
    return UInt8.ofNat p.zeroPage.length

end Builder

def Call.inPlace : Call → Builder Unit
  | .add name operand => Builder.add name operand
  | .instruct e operand => Builder.instruct e operand
  | .put value => Builder.put value
  | .putWord value => Builder.putBytes [lowByte value, highByte value]
  | .putBytes bs => Builder.putBytes bs
  | .putText text => Builder.putText text
  | .putLabel name => Builder.append (.data (.label name))
  | .putDisplacement name => Builder.append (.data (.displacement name))
  | .includeFile contents => Builder.includeFile contents
  | .setLabel name => Builder.setLabel name
  | .setOrigin addr => modify fun p => { p with origin := addr }
  | .moveTo addr => Builder.moveTo addr
  | .mint => modify fun p => { p with minted := p.minted + 1 }
  | .setVariable name => (fun _ => ()) <$> Builder.request name

namespace Builder

open Program (characterByte slots slot?_eq_none_iff slot?_append_self)

section Running

variable {α β : Type} (p : Program)

@[simp]
theorem on_pure (a : α) : on (pure a) p = (.ok a, p) := rfl

@[simp]
theorem on_throw (e : ProgramError) : on (throw e : Builder α) p = (.error e, p) := rfl

@[simp]
theorem on_get : on get p = (.ok p, p) := rfl

@[simp]
theorem on_modify (f : Program → Program) : on (modify f) p = (.ok (), f p) := rfl

@[simp]
theorem on_bind (b : Builder α) (f : α → Builder β) :
    on (b >>= f) p =
      match b.on p with
      | (.ok a, q) => (f a).on q
      | (.error e, q) => (.error e, q) := by
  simp only [on, ExceptT.run_bind, StateT.run_bind]
  rcases h : StateT.run (ExceptT.run b) p with ⟨a | e, q⟩ <;> rfl

@[simp]
theorem on_map (f : α → β) (b : Builder α) : on (f <$> b) p = ((b.on p).1.map f, (b.on p).2) := by
  simp only [on, ExceptT.run_map, StateT.run_map]
  rfl

@[simp]
theorem on_ofExcept (x : Except ProgramError α) : on (ofExcept x) p = (x, p) := by
  cases x <;> rfl

end Running

def settled (p : Program) : Except ProgramError Program → Except ProgramError Unit × Program
  | .ok q => (.ok (), q)
  | .error e => (.error e, p)

variable (p : Program)

theorem on_append (item : Item) : (append item).on p = (.ok (), p.append item) := rfl

theorem on_instruct (e : Encoding) (operand : Operand) :
    (instruct e operand).on p = settled p (p.instruct e operand) := by
  unfold instruct Program.instruct
  split
  · split <;> simp [*, on_append, settled]
  · simp [on_append, settled]

theorem on_add (name : String) (operand : Operand) :
    (add name operand).on p = settled p (p.add name operand) := by
  unfold add Program.add
  cases Encoding.ofName? name with
  | none => rfl
  | some e => exact on_instruct p e operand

theorem on_put (value : Int) : (put value).on p = settled p (p.put value) := by
  unfold put Program.put
  by_cases hvalue : 0 ≤ value ∧ value ≤ 255
  · simp [hvalue, settled, putBytes, on_append, Program.putBytes]
  · simp [hvalue, settled]

/-- A bad character stops the reading of a text, however late it comes. -/
theorem on_mapM_characterByte (cs : List Char) :
    on (cs.mapM fun c => ofExcept (characterByte c)) p = (cs.mapM characterByte, p) := by
  induction cs with
  | nil => rfl
  | cons c cs ih =>
    rw [List.mapM_cons, List.mapM_cons, on_bind, on_ofExcept]
    cases characterByte c with
    | error e => rfl
    | ok b =>
      simp only [on_bind, ih]
      cases cs.mapM characterByte <;> rfl

theorem on_putText (text : String) : (putText text).on p = settled p (p.putText text) := by
  unfold putText Program.putText
  rw [on_bind, on_mapM_characterByte]
  cases text.toList.mapM characterByte <;> rfl

theorem on_includeFile (contents : Option (List UInt8)) :
    (includeFile contents).on p = settled p (p.includeFile contents) := by
  cases contents <;> rfl

theorem on_setLabel (name : String) : (setLabel name).on p = settled p (p.setLabel name) := by
  unfold setLabel Program.setLabel
  cases hname : p.address? name <;> simp [hname, settled]

theorem on_moveTo (addr : UInt16) : (moveTo addr).on p = settled p (p.moveTo addr) := by
  unfold moveTo Program.moveTo
  by_cases haddr : p.origin ≤ addr
  · simp [haddr, UInt16.not_lt.2 haddr, settled, on_append]
  · simp [haddr, UInt16.not_le.1 haddr, settled]

/-- A request answers the byte that the variable has afterwards, or changes nothing. -/
theorem on_request (name : String) :
    match p.setVariable name with
    | .ok q => ∃ slot, q.slot? name = some slot ∧ (request name).on p = (.ok slot, q)
    | .error e => (request name).on p = (.error e, p) := by
  unfold request Program.setVariable
  by_cases hname : name ∈ p.zeroPage
  · cases hslot : p.slot? name with
    | none => exact absurd hname (slot?_eq_none_iff.1 hslot)
    | some slot => simp [hname, hslot]
  · have hnone := slot?_eq_none_iff.2 hname
    by_cases hfull : p.zeroPage.length < slots
    · simp [hname, hfull, hnone, slot?_append_self, Except.map]
    · simp [hname, hfull, hnone]

end Builder

/-- Carried out in place, a call answers and leaves the same. -/
theorem Call.on_inPlace (c : Call) (p : Program) : c.inPlace.on p = p.perform [c] := by
  have hsettled : p.perform [c] = Builder.settled p (c.apply p) := by
    rw [Program.perform]
    cases c.apply p <;> rfl
  rw [hsettled]
  cases c with
  | add name operand => exact Builder.on_add p name operand
  | instruct e operand => exact Builder.on_instruct p e operand
  | put value => exact Builder.on_put p value
  | putText text => exact Builder.on_putText p text
  | includeFile contents => exact Builder.on_includeFile p contents
  | setLabel name => exact Builder.on_setLabel p name
  | moveTo addr => exact Builder.on_moveTo p addr
  | setVariable name =>
    have hrequest := Builder.on_request p name
    rw [inPlace, apply, Builder.on_map]
    cases hvariable : p.setVariable name with
    | ok q =>
      simp only [hvariable] at hrequest
      obtain ⟨slot, -, hon⟩ := hrequest
      rw [hon]
      rfl
    | error e =>
      simp only [hvariable] at hrequest
      rw [hrequest]
      rfl
  | putWord | putBytes | putLabel | putDisplacement | setOrigin | mint => rfl

end M6502
