import Clerk.Proofs.Footprints

/-!
# Operations that undo each other

An operation on a cell is followed by the opposite one at the same address.  The second finds its
cell in the memory that the first has left, so it works on the same cell only if the first has not
written to the pointer on the way.  Addition and subtraction write to no cell and need no such care.

* `Address.Apart` — the address does not go through the cell that it names;
* `Session.resolve_store` — such an address names the same cell after that cell is written;
* `Session.bumped_back`, `Session.calculated_back` — a result in range can always be taken back;
* `Session.pairs_undo` — which pairs of operations undo each other, and what is left of them.
-/

set_option autoImplicit false

namespace Clerk

/-! ## What is done to a cell -/

/-- The operation changes the cell by `delta` and copies it to the register. -/
def CellOp.Bumps (kind : CellOp) (delta : Number) : Prop :=
  ∀ register cell slot, kind.exchange register cell slot =
    (cell.bump delta slot).map fun value => (value, value)

theorem CellOp.bumps_bumpUp : CellOp.bumpUp.Bumps Number.one := fun _ _ _ => rfl

theorem CellOp.bumps_bumpDown : CellOp.bumpDown.Bumps Number.minusOne := fun _ _ _ => rfl

theorem Value.bump_eq {n delta result : Number} (h : result.val = n.val + delta.val) (slot : Nat) :
    (number n).bump delta slot = .ok (.number result) := by
  rw [bump, Number.add?, ← h, Number.ofInt?_val]
  rfl

/-- The operation leaves the result of a calculation with the cell in the register. -/
def CellOp.Calculates (kind : CellOp) (operation : Arithmetic)
    (calculate : Number → Number → Option Number) : Prop :=
  ∀ register cell slot, kind.exchange register cell slot =
    (Value.operands operation register cell slot >>=
      fun (a, b) => Value.ofResult operation (calculate a b)).map fun value => (value, cell)

theorem CellOp.calculates_add : CellOp.add.Calculates .addition Number.add? := fun _ _ _ => rfl

theorem CellOp.calculates_sub : CellOp.sub.Calculates .subtraction Number.sub? := fun _ _ _ => rfl

theorem Number.sub?_of_add? {a b sum : Number} (h : a.add? b = some sum) :
    sum.sub? b = some a := by
  have hsum : sum.val = a.val + b.val := val_of_ofInt? h
  have hval : sum.val - b.val = a.val := by omega
  rw [sub?, hval, ofInt?_val]

theorem Number.add?_of_sub? {a b difference : Number} (h : a.sub? b = some difference) :
    difference.add? b = some a := by
  have hdifference : difference.val = a.val - b.val := val_of_ofInt? h
  have hval : difference.val + b.val = a.val := by omega
  rw [add?, hval, ofInt?_val]

/-! ## The cell is found again -/

namespace Memory

variable {memory : Memory} {slot : Nat}

theorem read_write (h : slot < memory.size) (value : Value) :
    (memory.write slot value).read slot = value :=
  read_of_getElem? (replaced_write h value).cell

theorem write_write (first second : Value) :
    (memory.write slot first).write slot second = memory.write slot second := by
  simp [write, Array.setIfInBounds_setIfInBounds]

/-- A cell that is given its old value back is as it was. -/
theorem write_back (h : slot < memory.size) (value : Value) :
    (memory.write slot value).write slot (memory.read slot) = memory := by
  rw [write_write, write_read h]

end Memory

/-- The address does not go through the cell at `slot`. -/
def Address.Apart : Address → Nat → Prop
  | .direct _, _ => True
  | .indirect index, slot => index.val ≠ slot

namespace Session

variable {session next : Session} {address : Address} {slot : Nat}

/-- **An address names the same cell after that cell is written**, unless it goes through it. -/
theorem resolve_store (h : session.resolve address = .ok slot) (hapart : address.Apart slot)
    (register cell : Value) : (session.store slot register cell).resolve address = .ok slot := by
  have hreplaced := Memory.replaced_write (resolve_lt h) cell
  cases names_of_resolve h with
  | direct hindex hcell => exact (Names.direct hindex hreplaced.cell).resolve_eq
  | @indirect index target pointer _ _ hindex hpointer htarget hcell =>
    -- the pointer is another cell, so it still points to this one
    have hother : pointer ≠ slot := by
      rintro rfl
      exact hapart hindex
    have hstill := hreplaced.others pointer hother
    rw [hpointer] at hstill
    exact (Names.indirect hindex hstill htarget hreplaced.cell).resolve_eq

theorem exchange_of_resolve (h : session.resolve address = .ok slot) (kind : CellOp) :
    session.exchange kind address =
      (kind.exchange session.register (session.memory.read slot) slot).map (slot, ·) := by
  rw [exchange, h]
  rfl

/-- An operation on a cell is done when it finds its cell and the values allow it. -/
theorem exists_exchange_of_effect {kind : CellOp}
    (h : session.effect (.cell kind address) = (.next, next)) :
    ∃ slot register cell, session.resolve address = .ok slot ∧
      kind.exchange session.register (session.memory.read slot) slot = .ok (register, cell) ∧
      next = session.store slot register cell := by
  cases does_of_effect h with
  | work hexchange =>
    obtain ⟨found, hresolve, hexchange⟩ := bind_eq_ok hexchange
    obtain ⟨pair, hpair, hexchange⟩ := bind_eq_ok hexchange
    cases hexchange
    exact ⟨_, _, _, hresolve, hpair, rfl⟩

theorem effect_of_exchange {kind : CellOp} {register cell : Value}
    (hresolve : session.resolve address = .ok slot)
    (hexchange : kind.exchange session.register (session.memory.read slot) slot =
      .ok (register, cell)) :
    session.effect (.cell kind address) = (.next, session.store slot register cell) := by
  refine (Does.work ?_).effect_eq
  rw [exchange_of_resolve hresolve, hexchange]
  rfl

/-! ## Copying -/

/-- **A value copied to a cell can be copied from it.** -/
theorem copied_back (hresolve : session.resolve address = .ok slot)
    (hapart : address.Apart slot) :
    session.effect (.cell .copyTo address) =
      (.next, session.store slot session.register session.register) ∧
    (session.store slot session.register session.register).effect (.cell .copyFrom address) =
      (.next, session.store slot session.register session.register) := by
  have hlt := resolve_lt hresolve
  have hread : (session.store slot session.register session.register).memory.read slot =
      session.register := Memory.read_write hlt _
  refine ⟨effect_of_exchange hresolve rfl, ?_⟩
  rw [effect_of_exchange (resolve_store hresolve hapart _ _) rfl, hread, store, store,
    Memory.write_write]

/-! ## Counting up and down -/

/-- **A cell that was changed by an amount can be changed back**: the old value was in range.  The
register is left with the old value of the cell. -/
theorem bumped_back {kind back : CellOp} {delta opposite : Number} (hkind : kind.Bumps delta)
    (hback : back.Bumps opposite) (hopposite : delta.val + opposite.val = 0)
    (hresolve : session.resolve address = .ok slot) (hapart : address.Apart slot)
    (h : session.effect (.cell kind address) = (.next, next)) :
    next.effect (.cell back address) =
      (.next, { session with register := session.memory.read slot }) := by
  obtain ⟨found, register, cell, hfound, hexchange, rfl⟩ := exists_exchange_of_effect h
  obtain rfl : slot = found := Except.ok.inj (hresolve.symm.trans hfound)
  have hlt := resolve_lt hresolve
  rw [hkind] at hexchange
  obtain ⟨value, hbump, hpair⟩ := bind_eq_ok hexchange
  cases hpair
  obtain ⟨n, result, hcell, hresult, rfl⟩ := Value.number_of_bump hbump
  have hold : n.val = result.val + opposite.val := by omega
  have hundone : back.exchange (.number result)
      ((session.store slot (.number result) (.number result)).memory.read slot) slot =
        .ok (.number n, .number n) := by
    rw [hback, store, Memory.read_write hlt, Value.bump_eq hold]
    rfl
  rw [effect_of_exchange (resolve_store hresolve hapart _ _) hundone, store, store, hcell]
  have hmemory := Memory.write_back hlt (.number result)
  rw [hcell] at hmemory
  rw [hmemory]

/-! ## Adding and subtracting -/

/-- **A calculation can be taken back**, whatever the address: no cell is changed. -/
theorem calculated_back {kind back : CellOp} {operation opposite : Arithmetic}
    {calculate undo : Number → Number → Option Number} (hkind : kind.Calculates operation calculate)
    (hback : back.Calculates opposite undo)
    (hundo : ∀ a b result, calculate a b = some result → undo result b = some a)
    (h : session.effect (.cell kind address) = (.next, next)) :
    next.effect (.cell back address) = (.next, session) := by
  obtain ⟨slot, register, cell, hresolve, hexchange, rfl⟩ := exists_exchange_of_effect h
  have hlt := resolve_lt hresolve
  rw [hkind] at hexchange
  obtain ⟨value, hvalue, hpair⟩ := bind_eq_ok hexchange
  cases hpair
  obtain ⟨a, b, result, hregister, hcell, hresult, rfl⟩ := Value.numbers_of_calculation hvalue
  rw [store_read hlt]
  have hundone : back.exchange (.number result) (session.memory.read slot) slot =
      .ok (.number a, session.memory.read slot) := by
    rw [hback, hcell]
    simp only [Value.operands, bind, Except.bind, hundo a b result hresult]
    rfl
  have hagain : ({ session with register := .number result } : Session).resolve address =
      .ok slot := by
    cases address <;> exact hresolve
  rw [effect_of_exchange hagain hundone, store, Memory.write_read hlt, ← hregister]

/-- **Operations that undo each other.**  At an address that does not go through the cell it names,
copying to the cell and back leaves all but the cell as it was, and counting up and down, in either
order, leaves all but the register as it was, which then holds what the cell does.  At any address
adding and subtracting, in either order, leave everything as it was.  The second operation never
fails once the first is done. -/
theorem pairs_undo (session : Session) (address : Address) :
    (∀ slot, session.resolve address = .ok slot → address.Apart slot →
      (∃ copied last, session.effect (.cell .copyTo address) = (.next, copied) ∧
        copied.effect (.cell .copyFrom address) = (.next, last) ∧
        last = { session with memory := last.memory } ∧
        session.memory.Replaced slot session.register last.memory) ∧
      (∀ next, session.effect (.cell .bumpUp address) = (.next, next) →
        next.effect (.cell .bumpDown address) =
          (.next, { session with register := session.memory.read slot })) ∧
      ∀ next, session.effect (.cell .bumpDown address) = (.next, next) →
        next.effect (.cell .bumpUp address) =
          (.next, { session with register := session.memory.read slot })) ∧
    (∀ next, session.effect (.cell .add address) = (.next, next) →
      next.effect (.cell .sub address) = (.next, session)) ∧
    ∀ next, session.effect (.cell .sub address) = (.next, next) →
      next.effect (.cell .add address) = (.next, session) := by
  refine ⟨fun slot hresolve hapart => ⟨?_, ?_, ?_⟩, ?_, ?_⟩
  · obtain ⟨hto, hfrom⟩ := copied_back hresolve hapart
    exact ⟨_, _, hto, hfrom, rfl, Memory.replaced_write (resolve_lt hresolve) _⟩
  · intro next h
    exact bumped_back CellOp.bumps_bumpUp CellOp.bumps_bumpDown (by decide) hresolve hapart h
  · intro next h
    exact bumped_back CellOp.bumps_bumpDown CellOp.bumps_bumpUp (by decide) hresolve hapart h
  · intro next h
    refine calculated_back CellOp.calculates_add CellOp.calculates_sub ?_ h
    exact fun _ _ _ => Number.sub?_of_add?
  · intro next h
    refine calculated_back CellOp.calculates_sub CellOp.calculates_add ?_ h
    exact fun _ _ _ => Number.add?_of_sub?

/-- The first of the two cells points to the second. -/
def pointingOn : Session :=
  { start 0 [] [] with
    memory := ⟨#[.number Number.one, .number Number.minusOne]⟩, register := .number Number.one }

theorem pairs_undo_pointingOn :
    pointingOn.resolve (.indirect Number.zero) = .ok 1 ∧
    (Address.indirect Number.zero).Apart 1 ∧
    (∃ copied last, pointingOn.effect (.cell .copyTo (.indirect Number.zero)) = (.next, copied) ∧
      copied.effect (.cell .copyFrom (.indirect Number.zero)) = (.next, last) ∧
      last = { pointingOn with memory := last.memory } ∧
      pointingOn.memory.Replaced 1 pointingOn.register last.memory) ∧
    (∃ next, pointingOn.effect (.cell .bumpUp (.indirect Number.zero)) = (.next, next) ∧
      next.effect (.cell .bumpDown (.indirect Number.zero)) =
        (.next, { pointingOn with register := .number Number.minusOne })) ∧
    ∃ next, pointingOn.effect (.cell .add (.indirect Number.zero)) = (.next, next) ∧
      next.effect (.cell .sub (.indirect Number.zero)) = (.next, pointingOn) := by
  have hresolve : pointingOn.resolve (.indirect Number.zero) = .ok 1 := rfl
  have hapart : (Address.indirect Number.zero).Apart 1 := by
    intro h
    cases h
  obtain ⟨hcopies, hbumps, -⟩ := (pairs_undo pointingOn (.indirect Number.zero)).1 1 hresolve hapart
  exact ⟨hresolve, hapart, hcopies, ⟨_, rfl, hbumps _ rfl⟩,
    ⟨_, rfl, (pairs_undo pointingOn (.indirect Number.zero)).2.1 _ rfl⟩⟩

/-! A cell that points to itself points elsewhere once it is changed, and there the way back is
closed. -/

example :
    let next := (Machine.pointingToItself.session.effect
      (.cell .bumpUp (.indirect Number.zero))).2
    next.effect (.cell .bumpDown (.indirect Number.zero)) =
      (.fault (.notANumber .decrement (.cell 1)), next) := by
  decide

end Session

end Clerk
