import Clerk.Memory
import Clerk.Op
import Clerk.Value.Operations

/-!
# Sessions

A session is all that a program works on: the register, the memory, the values waiting in the
in-tray, the values put in the out-tray and the values still expected there.  `Session.effect` says
what an operation does to a session and where the program goes on.
-/

set_option autoImplicit false

namespace Clerk

/-- The data of a running program.  The in-tray is kept as the values taken so far and those still
in it, the out-tray as the values put out so far and those still expected. -/
structure Session where
  taken : Array Value
  pending : List Value
  output : Array Value
  expected : List Value
  memory : Memory
  register : Value
  deriving DecidableEq, Repr

/-- What comes of an operation: it is done and the next one follows (`next`), it is a jump that is
not taken or one that is, it wants a value and the in-tray is empty, or it cannot be carried out. -/
inductive Effect where
  | next
  | pass
  | goto (target : String)
  | exhausted
  | fault (cause : Fault)
  deriving DecidableEq, Repr

/-- What an operation leaves in the register and in the cell at `slot`. -/
def CellOp.exchange (register cell : Value) (slot : Nat) : CellOp → Except Fault (Value × Value)
  | .copyFrom => .ok (cell, cell)
  | .copyTo => .ok (register, register)
  | .add => do return (← register.add cell slot, cell)
  | .sub => do return (← register.sub cell slot, cell)
  | .bumpUp => do
    let value ← cell.bump Number.one slot
    return (value, value)
  | .bumpDown => do
    let value ← cell.bump Number.minusOne slot
    return (value, value)

namespace Session

/-- A session at its start, with an empty register and empty cells. -/
def start (memorySize : Nat) (input expected : List Value) : Session :=
  ⟨#[], input, #[], expected, Memory.ofSize memorySize, .empty⟩

/-- The whole input, taken or not. -/
def input (session : Session) : List Value :=
  session.taken.toList ++ session.pending

/-- Takes the next value from the in-tray into the register, and says whether there was one. -/
def takeInput (session : Session) : Bool × Session :=
  match session.pending with
  | [] => (false, session)
  | value :: rest =>
    (true, { session with taken := session.taken.push value, pending := rest, register := value })

/-- Puts the register in the out-tray, if it is the value expected next.  A value that is expected
and does not come is no longer expected after the fault. -/
def emit (session : Session) : Option Fault × Session :=
  if session.register.isEmpty then (some .noValueHeld, session)
  else
    match session.expected with
    | [] => (some .nothingExpected, session)
    | value :: rest =>
      if value = session.register then
        (none, { session with output := session.output.push session.register, expected := rest })
      else (some (.mismatch value session.register), { session with expected := rest })

/-- Puts a value in the register. -/
def setRegister (session : Session) (value : Value) : Session :=
  { session with register := value }

/-- Replaces the memory by one of empty cells. -/
def renewMemory (session : Session) (size : Nat) : Session :=
  { session with memory := Memory.ofSize size }

/-- The cell that an address means. -/
def resolve (session : Session) : Address → Except Fault Nat
  | .direct index =>
    match session.memory.slot index with
    | some slot => .ok slot
    | none => .error (.noSuchCell index)
  | .indirect index =>
    match session.memory.slot index with
    | none => .error (.noSuchPointer index)
    | some pointer =>
      match session.memory.read pointer with
      | .number target =>
        match session.memory.slot target with
        | some slot => .ok slot
        | none => .error (.danglingPointer pointer target)
      | _ => .error (.pointerNotNumber pointer)

/-- Puts one value in the register and one in a cell. -/
def store (session : Session) (slot : Nat) (register cell : Value) : Session :=
  { session with memory := session.memory.write slot cell, register := register }

/-- The cell that an operation works on, and what it leaves in the register and in the cell. -/
def exchange (session : Session) (kind : CellOp) (address : Address) :
    Except Fault (Nat × Value × Value) := do
  let slot ← session.resolve address
  return (slot, ← kind.exchange session.register (session.memory.read slot) slot)

/-- Carries out an operation on the cell that an address means.  A fault changes nothing. -/
def perform (session : Session) (kind : CellOp) (address : Address) : Option Fault × Session :=
  match session.exchange kind address with
  | .ok (slot, register, cell) => (none, session.store slot register cell)
  | .error cause => (some cause, session)

/-- Whether a jump is taken.  A test needs something in the register. -/
def takesJump (session : Session) : Option Test → Except Fault Bool
  | none => .ok true
  | some test =>
    if session.register.isEmpty then .error (.nothingToCompare test)
    else
      match test with
      | .zero => .ok session.register.isZero
      | .negative => .ok session.register.isNegative

/-- What comes of an operation, with the session after it. -/
def effect (session : Session) : Op → Effect × Session
  | .inbox =>
    match session.takeInput with
    | (true, next) => (.next, next)
    | (false, left) => (.exhausted, left)
  | .outbox =>
    match session.emit with
    | (none, next) => (.next, next)
    | (some cause, left) => (.fault cause, left)
  | .cell kind address =>
    match session.perform kind address with
    | (none, next) => (.next, next)
    | (some cause, left) => (.fault cause, left)
  | .jump test target =>
    match session.takesJump test with
    | .ok true => (.goto target, session)
    | .ok false => (.pass, session)
    | .error cause => (.fault cause, session)

theorem effect_inbox (session : Session) :
    session.effect .inbox =
      (if session.takeInput.1 then .next else .exhausted, session.takeInput.2) := by
  simp only [effect]
  split <;> rename_i h <;> rw [h] <;> rfl

theorem effect_outbox (session : Session) :
    session.effect .outbox = (session.emit.1.elim .next .fault, session.emit.2) := by
  simp only [effect]
  split <;> rename_i h <;> rw [h] <;> rfl

theorem effect_cell (session : Session) (kind : CellOp) (address : Address) :
    session.effect (.cell kind address) =
      ((session.perform kind address).1.elim .next .fault, (session.perform kind address).2) := by
  simp only [effect]
  split <;> rename_i h <;> rw [h] <;> rfl

end Session

end Clerk
