import Clerk.Report

/-!
# Puzzles

A puzzle says how much memory there is and which output it expects for an input.  Running a
program on a puzzle gives a report, provided that the run ends within the limit on steps.
-/

set_option autoImplicit false

namespace Clerk

/-- A task for a program: a number of memory cells, and the output expected for an input. -/
structure Puzzle where
  memorySize : Nat
  expected : List Value → List Value

namespace Puzzle

/-- A puzzle that expects the same output for every input. -/
def fixed (memorySize : Nat) (expected : List Value) : Puzzle :=
  ⟨memorySize, fun _ => expected⟩

/-- A puzzle that expects its input. -/
def echo (memorySize : Nat) : Puzzle :=
  ⟨memorySize, id⟩

/-- The session in which a program meets a puzzle. -/
def session (puzzle : Puzzle) (input : List Value) : Session :=
  Session.start puzzle.memorySize input (puzzle.expected input)

/-- Runs a program on an input. -/
def run? (puzzle : Puzzle) (program : Program) (input : List Value) (limit : Nat) :
    Option Report :=
  (Machine.run? program limit (Machine.start (puzzle.session input))).map fun (ending, machine) =>
    Report.ofEnding program ending machine

/-- Runs a program on several inputs, one after the other. -/
def runAll? (puzzle : Puzzle) (program : Program) (inputs : List (List Value)) (limit : Nat) :
    Option (List Report) :=
  inputs.mapM fun input => puzzle.run? program input limit

end Puzzle

end Clerk
