import Clerk.Program
import Clerk.Session

/-!
# The machine

A machine is a session, a position in the program and a step counter.  Every operation that is
done and every jump that is taken counts as one step; a jump that is not taken is free.

* `Machine.step` — one step;
* `Machine.trace` — the first `n` steps, with what each one says;
* `Machine.watch` — the same, as far as there is something to see;
* `Machine.run?` — all steps to the end, if it comes within a limit.
-/

set_option autoImplicit false

namespace Clerk

/-- Why a program stops without a fault: a value is wanted and the in-tray is empty, or there is no
further instruction. -/
inductive Halt where
  | inputExhausted
  | endOfProgram
  deriving DecidableEq, Repr

/-- How a run ends. -/
inductive Ending where
  | halt (kind : Halt)
  | fault (cause : Fault)
  deriving DecidableEq, Repr

/-- What a step says. -/
inductive Outcome where
  | running
  | ended (ending : Ending)
  deriving DecidableEq, Repr

/-- A program at work: its data and the index of the next instruction.  `steps` is the number of
operations done and jumps taken so far.  It has no bound: a counter of 64 bits shows the same number
only as long as that is below `2 ^ 64`. -/
structure Machine where
  session : Session
  position : Nat := 0
  steps : Nat := 0
  deriving DecidableEq, Repr

namespace Machine

/-- A machine at the first instruction. -/
def start (session : Session) : Machine :=
  ⟨session, 0, 0⟩

/-- One step of a program. -/
def step (program : Program) : Machine → Outcome × Machine
  | ⟨session, position, steps⟩ =>
    match program.instructions[position]? with
    | none => (.ended (.halt .endOfProgram), ⟨session, position, steps⟩)
    | some instruction =>
      match session.effect instruction.op with
      | (.next, session) => (.running, ⟨session, position + 1, steps + 1⟩)
      | (.pass, session) => (.running, ⟨session, position + 1, steps⟩)
      | (.goto target, session) =>
        match program.resolve target with
        | some place => (.running, ⟨session, place, steps + 1⟩)
        | none => (.ended (.fault (.noSuchLabel target)), ⟨session, position, steps + 1⟩)
      | (.exhausted, session) => (.ended (.halt .inputExhausted), ⟨session, position, steps⟩)
      | (.fault cause, session) => (.ended (.fault cause), ⟨session, position, steps⟩)

/-- What the first `n` steps say and the machine after each of them. -/
def trace (program : Program) : Nat → Machine → List (Outcome × Machine)
  | 0, _ => []
  | n + 1, machine =>
    let next := machine.step program
    next :: trace program n next.2

/-- The trace of at most `n` steps, up to the first fault or to the step that follows the first
halt; `halted` tells whether that halt has been seen. -/
def watch (program : Program) (halted : Bool) : Nat → Machine → List (Outcome × Machine)
  | 0, _ => []
  | n + 1, machine =>
    let next := machine.step program
    match next.1 with
    | .running => next :: watch program halted n next.2
    | .ended (.halt _) => if halted then [next] else next :: watch program true n next.2
    | .ended (.fault _) => [next]

/-- Steps until the program ends, if it does so within `limit` steps. -/
def run? (program : Program) : Nat → Machine → Option (Ending × Machine)
  | 0, _ => none
  | limit + 1, machine =>
    match machine.step program with
    | (.running, next) => run? program limit next
    | (.ended ending, last) => some (ending, last)

end Machine

end Clerk
