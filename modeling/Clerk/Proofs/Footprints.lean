import Clerk.Proofs.Surplus
import Clerk.Proofs.Transitions

/-!
# What each operation touches

An operation that is done changes a few parts of the session and leaves all others alone.  The
cell that it works on is the one that its address names in the memory before the step, also when a
pointer names the very cell it stands in, and this cell always exists.

* `Session.Names` — which cell an address names, and what it holds;
* `Session.resolve_eq_ok_iff` — an address resolves to the cell that it names and to no other;
* `Memory.Replaced` — one cell has a new value, and all others are as before;
* `Session.Touched` — what each operation changes;
* `Machine.step_touches_only` — a step that goes on changes that and nothing else.
-/

set_option autoImplicit false

namespace Clerk

/-! ## Cells -/

namespace Memory

variable {memory : Memory} {slot : Nat}

/-- The cell at `slot` holds `value`, and all others hold what they held before. -/
structure Replaced (before : Memory) (slot : Nat) (value : Value) (memory : Memory) : Prop where
  cell : memory.cells[slot]? = some value
  others : ∀ other, other ≠ slot → memory.cells[other]? = before.cells[other]?

theorem slot_eq_some_iff {address : Number} :
    memory.slot address = some slot ↔ address.val = slot ∧ slot < memory.size := by
  unfold Memory.slot
  split
  · rw [Option.some.injEq]
    omega
  · simp only [reduceCtorEq, false_iff]
    omega

theorem getElem?_of_lt (h : slot < memory.size) :
    memory.cells[slot]? = some (memory.read slot) := by
  unfold read
  rw [Array.getD_eq_getD_getElem?, Array.getElem?_eq_getElem h, Option.getD_some]

theorem lt_of_getElem? {value : Value} (h : memory.cells[slot]? = some value) :
    slot < memory.size :=
  (Array.getElem?_eq_some_iff.1 h).1

theorem read_of_getElem? {value : Value} (h : memory.cells[slot]? = some value) :
    memory.read slot = value := by
  have hread := getElem?_of_lt (lt_of_getElem? h)
  exact Option.some.inj (hread.symm.trans h)

theorem replaced_write (h : slot < memory.size) (value : Value) :
    memory.Replaced slot value (memory.write slot value) where
  cell := by rw [write, Array.getElem?_setIfInBounds_self_of_lt h]
  others other hother := by rw [write, Array.getElem?_setIfInBounds_ne (Ne.symm hother)]

/-- Writing back what a cell holds changes nothing. -/
theorem write_read (h : slot < memory.size) : memory.write slot (memory.read slot) = memory := by
  have hcell := getElem?_of_lt h
  obtain ⟨hlt, heq⟩ := Array.getElem?_eq_some_iff.1 hcell
  rw [write, Array.setIfInBounds, dif_pos hlt, ← heq, Array.set_getElem_self]

end Memory

namespace Session

variable {session next : Session} {address : Address} {slot : Nat} {value : Value}

/-! ## Addresses -/

/-- The cell at `slot` is the one that an address names, and it holds `value`. -/
inductive Names (session : Session) : Address → Nat → Value → Prop
  | direct {index : Number} {slot : Nat} {value : Value} (hindex : index.val = slot)
      (hcell : session.memory.cells[slot]? = some value) :
    Names session (.direct index) slot value
  | indirect {index target : Number} {pointer slot : Nat} {value : Value}
      (hindex : index.val = pointer)
      (hpointer : session.memory.cells[pointer]? = some (.number target))
      (htarget : target.val = slot) (hcell : session.memory.cells[slot]? = some value) :
    Names session (.indirect index) slot value

/-- An address that resolves names a cell, and a pointer on the way is a cell as well. -/
theorem names_of_resolve (h : session.resolve address = .ok slot) :
    session.Names address slot (session.memory.read slot) := by
  have hcell := Memory.getElem?_of_lt (resolve_lt h)
  cases address with
  | direct index =>
    simp only [resolve] at h
    split at h
    · rename_i hslot
      cases h
      exact .direct (Memory.slot_eq_some_iff.1 hslot).1 hcell
    · cases h
  | indirect index =>
    simp only [resolve] at h
    split at h
    · cases h
    · rename_i pointer hindex
      obtain ⟨hindex, hlt⟩ := Memory.slot_eq_some_iff.1 hindex
      split at h
      · rename_i target hread
        have hpointer := Memory.getElem?_of_lt hlt
        rw [hread] at hpointer
        split at h
        · rename_i htarget
          cases h
          exact .indirect hindex hpointer (Memory.slot_eq_some_iff.1 htarget).1 hcell
        · cases h
      · cases h

theorem Names.resolve_eq (h : session.Names address slot value) :
    session.resolve address = .ok slot := by
  cases h with
  | direct hindex hcell =>
    have hslot := Memory.slot_eq_some_iff.2 ⟨hindex, Memory.lt_of_getElem? hcell⟩
    simp only [resolve, hslot]
  | indirect hindex hpointer htarget hcell =>
    have hslot := Memory.slot_eq_some_iff.2 ⟨hindex, Memory.lt_of_getElem? hpointer⟩
    have hfound := Memory.slot_eq_some_iff.2 ⟨htarget, Memory.lt_of_getElem? hcell⟩
    simp only [resolve, hslot, Memory.read_of_getElem? hpointer, hfound]

/-- **An address resolves to the cell that it names**, which is one of the memory. -/
theorem resolve_eq_ok_iff :
    session.resolve address = .ok slot ↔ slot < session.memory.size ∧
      session.Names address slot (session.memory.read slot) :=
  ⟨fun h => ⟨resolve_lt h, names_of_resolve h⟩, fun h => h.2.resolve_eq⟩

end Session

/-! ## Results -/

namespace Value

variable {operation : Arithmetic} {register cell value : Value} {slot : Nat}

theorem number_of_ofResult {result : Option Number} (h : ofResult operation result = .ok value) :
    ∃ n, result = some n ∧ value = .number n := by
  cases result with
  | none => cases h
  | some n =>
    cases h
    exact ⟨n, rfl, rfl⟩

theorem eq_of_operands {a b : Number} (h : operands operation register cell slot = .ok (a, b)) :
    register = .number a ∧ cell = .number b := by
  unfold operands at h
  split at h
  · cases h
    exact ⟨rfl, rfl⟩
  · cases h
  · cases h

/-- Sum and difference succeed alike: both operands are numbers, and the result is in range. -/
theorem numbers_of_calculation {calculate : Number → Number → Option Number}
    (h : (operands operation register cell slot >>=
      fun (a, b) => ofResult operation (calculate a b)) = .ok value) :
    ∃ a b result, register = .number a ∧ cell = .number b ∧ calculate a b = some result ∧
      value = .number result := by
  obtain ⟨⟨a, b⟩, hoperands, hresult⟩ := bind_eq_ok h
  obtain ⟨hregister, hcell⟩ := eq_of_operands hoperands
  obtain ⟨result, hcalculate, hvalue⟩ := number_of_ofResult hresult
  exact ⟨a, b, result, hregister, hcell, hcalculate, hvalue⟩

theorem number_of_bump {delta : Number} (h : cell.bump delta slot = .ok value) :
    ∃ n result : Number, cell = .number n ∧ result.val = n.val + delta.val ∧
      value = .number result := by
  unfold bump at h
  split at h
  · rename_i n
    obtain ⟨result, hsum, hvalue⟩ := number_of_ofResult h
    exact ⟨n, result, rfl, Number.val_of_ofInt? hsum, hvalue⟩
  · cases h

end Value

namespace Session

variable {session next : Session}

/-! ## Operations -/

/-- What an operation that is done changes; the rest of the session is as before. -/
inductive Touched (session : Session) : Op → Session → Prop
  | inbox {value : Value} {pending : List Value} (hpending : session.pending = value :: pending) :
    Touched session .inbox
      { session with taken := session.taken.push value, pending, register := value }
  | outbox {expected : List Value} (hheld : session.register ≠ .empty)
      (hexpected : session.expected = session.register :: expected) :
    Touched session .outbox
      { session with output := session.output.push session.register, expected }
  | copyFrom {address : Address} {slot : Nat} {value : Value}
      (hnames : session.Names address slot value) :
    Touched session (.cell .copyFrom address) { session with register := value }
  | copyTo {address : Address} {slot : Nat} {value : Value} {memory : Memory}
      (hnames : session.Names address slot value)
      (hmemory : session.memory.Replaced slot session.register memory) :
    Touched session (.cell .copyTo address) { session with memory }
  | add {address : Address} {slot : Nat} {a b sum : Number}
      (hregister : session.register = .number a)
      (hnames : session.Names address slot (.number b)) (hsum : sum.val = a.val + b.val) :
    Touched session (.cell .add address) { session with register := .number sum }
  | sub {address : Address} {slot : Nat} {a b difference : Number}
      (hregister : session.register = .number a)
      (hnames : session.Names address slot (.number b))
      (hdifference : difference.val = a.val - b.val) :
    Touched session (.cell .sub address) { session with register := .number difference }
  | bumpUp {address : Address} {slot : Nat} {n raised : Number} {memory : Memory}
      (hnames : session.Names address slot (.number n)) (hraised : raised.val = n.val + 1)
      (hmemory : session.memory.Replaced slot (.number raised) memory) :
    Touched session (.cell .bumpUp address) { session with memory, register := .number raised }
  | bumpDown {address : Address} {slot : Nat} {n lowered : Number} {memory : Memory}
      (hnames : session.Names address slot (.number n)) (hlowered : lowered.val = n.val - 1)
      (hmemory : session.memory.Replaced slot (.number lowered) memory) :
    Touched session (.cell .bumpDown address) { session with memory, register := .number lowered }
  | jump {test : Option Test} {target : String} : Touched session (.jump test target) session

/-- Storing a value in the register and leaving the cell as it is changes the register only. -/
theorem store_read {slot : Nat} (h : slot < session.memory.size) (register : Value) :
    session.store slot register (session.memory.read slot) = { session with register } := by
  rw [store, Memory.write_read h]

/-- **What an operation on a cell changes.** -/
theorem touched_of_exchange {kind : CellOp} {address : Address} {slot : Nat}
    {register cell : Value} (h : session.exchange kind address = .ok (slot, register, cell)) :
    session.Touched (.cell kind address) (session.store slot register cell) := by
  obtain ⟨found, hresolve, h⟩ := bind_eq_ok h
  obtain ⟨pair, hexchange, h⟩ := bind_eq_ok h
  cases h
  have hlt := resolve_lt hresolve
  have hnames := names_of_resolve hresolve
  cases kind with
  | copyFrom =>
    cases hexchange
    rw [store_read hlt]
    exact .copyFrom hnames
  | copyTo =>
    cases hexchange
    exact .copyTo hnames (Memory.replaced_write hlt _)
  | add =>
    obtain ⟨value, hadd, h⟩ := bind_eq_ok hexchange
    cases h
    obtain ⟨a, b, sum, hregister, hcell, hsum, rfl⟩ := Value.numbers_of_calculation hadd
    rw [store_read hlt]
    rw [hcell] at hnames
    exact .add hregister hnames (Number.val_of_ofInt? hsum)
  | sub =>
    obtain ⟨value, hsub, h⟩ := bind_eq_ok hexchange
    cases h
    obtain ⟨a, b, difference, hregister, hcell, hdifference, rfl⟩ :=
      Value.numbers_of_calculation hsub
    rw [store_read hlt]
    rw [hcell] at hnames
    exact .sub hregister hnames (Number.val_of_ofInt? hdifference)
  | bumpUp =>
    obtain ⟨value, hbump, h⟩ := bind_eq_ok hexchange
    cases h
    obtain ⟨n, raised, hcell, hraised, rfl⟩ := Value.number_of_bump hbump
    rw [hcell] at hnames
    exact .bumpUp hnames hraised (Memory.replaced_write hlt _)
  | bumpDown =>
    obtain ⟨value, hbump, h⟩ := bind_eq_ok hexchange
    cases h
    obtain ⟨n, lowered, hcell, hlowered, rfl⟩ := Value.number_of_bump hbump
    rw [hcell] at hnames
    exact .bumpDown hnames hlowered (Memory.replaced_write hlt _)

theorem touched_of_does {op : Op} (h : session.Does op .next next) : session.Touched op next := by
  cases h with
  | take hpending => exact .inbox hpending
  | deliver hheld hexpected => exact .outbox hheld hexpected
  | work hexchange => exact touched_of_exchange hexchange

/-- At most one cell differs. -/
theorem Touched.cells {op : Op} (h : session.Touched op next) :
    ∃ slot : Nat, ∀ other, other ≠ slot →
      next.memory.cells[other]? = session.memory.cells[other]? := by
  cases h with
  | copyTo hnames hmemory => exact ⟨_, hmemory.others⟩
  | bumpUp hnames hraised hmemory => exact ⟨_, hmemory.others⟩
  | bumpDown hnames hlowered hmemory => exact ⟨_, hmemory.others⟩
  | _ => exact ⟨0, fun _ _ => rfl⟩

end Session

namespace Machine

variable {program : Program} {machine next : Machine}

theorem touched_of_step (h : machine.step program = (.running, next)) :
    ∃ op, program.opAt? machine.position = some op ∧ machine.session.Touched op next.session := by
  cases stepped_of_step h with
  | advance hop hdoes => exact ⟨_, hop, Session.touched_of_does hdoes⟩
  | pass hop hdoes =>
    refine ⟨_, hop, ?_⟩
    cases hdoes
    exact .jump
  | jump hop hdoes hresolve =>
    refine ⟨_, hop, ?_⟩
    cases hdoes
    exact .jump

/-- **A step that goes on stays in bounds and touches only what it should.**  An address resolves
to the cell that it names before the step, and this cell exists; the operation changes what it is
to change and nothing else; there are as many cells as before; and at most one of them differs. -/
theorem step_touches_only (h : machine.step program = (.running, next)) :
    (∀ address slot, machine.session.resolve address = .ok slot ↔
      slot < machine.session.memory.size ∧
        machine.session.Names address slot (machine.session.memory.read slot)) ∧
    (∃ op, program.opAt? machine.position = some op ∧
      machine.session.Touched op next.session) ∧
    next.session.memory.size = machine.session.memory.size ∧
    ∃ slot : Nat, ∀ other, other ≠ slot →
      next.session.memory.cells[other]? = machine.session.memory.cells[other]? := by
  obtain ⟨op, hop, htouched⟩ := touched_of_step h
  refine ⟨fun _ _ => Session.resolve_eq_ok_iff, ⟨op, hop, htouched⟩, ?_, htouched.cells⟩
  have hsize := step_memory_size program machine
  rwa [h] at hsize

/-- Raises the cell that the first one points to. -/
def raising : Program :=
  ⟨#[⟨.cell .bumpUp (.indirect Number.zero), none, none⟩], []⟩

/-- The first of the two cells points to itself. -/
def pointingToItself : Machine :=
  start { Session.start 0 [] [] with memory := ⟨#[.number Number.zero, .character 'a']⟩ }

theorem step_touches_only_pointingToItself :
    ∃ next, pointingToItself.step raising = (.running, next) ∧
      next.session.memory.cells = #[.number Number.one, .character 'a'] ∧
      (∀ address slot, pointingToItself.session.resolve address = .ok slot ↔
        slot < pointingToItself.session.memory.size ∧
          pointingToItself.session.Names address slot
            (pointingToItself.session.memory.read slot)) ∧
      (∃ op, raising.opAt? 0 = some op ∧ pointingToItself.session.Touched op next.session) ∧
      next.session.memory.size = pointingToItself.session.memory.size ∧
      ∃ slot : Nat, ∀ other, other ≠ slot →
        next.session.memory.cells[other]? = pointingToItself.session.memory.cells[other]? := by
  have hstep : pointingToItself.step raising = (.running, (pointingToItself.step raising).2) := rfl
  exact ⟨_, hstep, by decide, step_touches_only hstep⟩

end Machine

end Clerk
