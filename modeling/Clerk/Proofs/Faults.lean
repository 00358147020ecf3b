import Clerk.Proofs.Operations

/-!
# Faults of a session

Which faults the parts of an operation can meet.  Finding a cell, working on it and testing the
register never drop an expected value and never name a label; so only emitting can miss a value,
and an unbound label is a fault of the program, not of the session.

* `Fault.plain` — the fault neither drops an expected value nor names a label;
* `Session.plain_of_exchange`, `Session.plain_of_takesJump` — the faults of cells and tests;
* `Session.effect_ne_noSuchLabel` — no operation by itself meets an unbound label.
-/

set_option autoImplicit false

namespace Clerk

/-- Whether a fault leaves the expected values as they are and has nothing to do with labels. -/
def Fault.plain : Fault → Bool
  | .mismatch _ _ => false
  | .noSuchLabel _ => false
  | _ => true

namespace Value

variable {cause : Fault}

theorem plain_of_ofResult {operation : Arithmetic} {result : Option Number}
    (h : ofResult operation result = .error cause) : cause.plain = true := by
  cases result <;> cases h
  rfl

/-- Sum and difference fail alike: an operand is no number, or the result is out of range. -/
theorem plain_of_calculation {operation : Arithmetic} {register cell : Value} {slot : Nat}
    {calculate : Number → Number → Option Number}
    (h : (operands operation register cell slot >>=
      fun (a, b) => ofResult operation (calculate a b)) = .error cause) :
    cause.plain = true := by
  rcases bind_eq_error h with h | ⟨pair, -, h⟩
  · unfold operands at h
    split at h <;> cases h <;> rfl
  · exact plain_of_ofResult h

theorem plain_of_bump {cell : Value} {delta : Number} {slot : Nat}
    (h : cell.bump delta slot = .error cause) : cause.plain = true := by
  unfold bump at h
  split at h
  · exact plain_of_ofResult h
  · cases h
    rfl

end Value

theorem CellOp.plain_of_exchange {kind : CellOp} {register cell : Value} {slot : Nat}
    {cause : Fault} (h : kind.exchange register cell slot = .error cause) :
    cause.plain = true := by
  cases kind with
  | copyFrom => cases h
  | copyTo => cases h
  | add => exact Value.plain_of_calculation (eq_error_of_bind_pure h)
  | sub => exact Value.plain_of_calculation (eq_error_of_bind_pure h)
  | bumpUp => exact Value.plain_of_bump (eq_error_of_bind_pure h)
  | bumpDown => exact Value.plain_of_bump (eq_error_of_bind_pure h)

namespace Session

variable {session : Session} {cause : Fault}

theorem plain_of_resolve {address : Address} (h : session.resolve address = .error cause) :
    cause.plain = true := by
  cases address with
  | direct index =>
    simp only [resolve] at h
    split at h <;> cases h
    rfl
  | indirect index =>
    simp only [resolve] at h
    split at h
    · cases h
      rfl
    · split at h
      · split at h <;> cases h
        rfl
      · cases h
        rfl

/-- Working on a cell fails when there is no such cell, or at the work itself. -/
theorem plain_of_exchange {kind : CellOp} {address : Address}
    (h : session.exchange kind address = .error cause) : cause.plain = true := by
  rcases bind_eq_error h with h | ⟨slot, -, h⟩
  · exact plain_of_resolve h
  · exact CellOp.plain_of_exchange (eq_error_of_bind_pure h)

theorem plain_of_takesJump {test : Option Test} (h : session.takesJump test = .error cause) :
    cause.plain = true := by
  cases test with
  | none => cases h
  | some test =>
    simp only [takesJump] at h
    split at h
    · cases h
      rfl
    · cases test <;> cases h

/-- **No operation by itself meets an unbound label.** -/
theorem effect_ne_noSuchLabel (session : Session) (op : Op) (label : String) :
    (session.effect op).1 ≠ .fault (.noSuchLabel label) := by
  rcases heffect : session.effect op with ⟨effect, next⟩
  rintro rfl
  cases does_of_effect heffect with
  | refuse hexchange => cases plain_of_exchange hexchange
  | doubt hjump => cases plain_of_takesJump hjump

end Session

end Clerk
