import Clerk.Error
import Clerk.Fold

/-!
# Programs

A finished program: its instructions and the table of its labels.  A label bound after the last
instruction stands for the end of the program.  A label may be repeated as long as it is bound to
one place only.
-/

set_option autoImplicit false

namespace Clerk

/-- Labels with the positions they are bound to, in the order of their first binding. -/
abbrev LabelTable := List (String × Nat)

/-- Adds bindings to a table; the first that disagrees with an earlier one is the error. -/
def LabelTable.extend (table : LabelTable) : List (String × Nat) → Except Error LabelTable
  | [] => .ok table
  | (label, position) :: rest =>
    match table.lookup label with
    | none => LabelTable.extend (table ++ [(label, position)]) rest
    | some bound =>
      if bound = position then table.extend rest else .error (.duplicateLabel label)

/-- A finished program: its instructions in order and the positions of its labels. -/
structure Program where
  instructions : Array Instruction
  labels : LabelTable
  deriving DecidableEq, Repr

namespace Program

/-- The program without instructions and labels. -/
def empty : Program :=
  ⟨#[], []⟩

/-- The program of a list of entries. -/
def ofEntries (entries : List Entry) : Except Error Program := do
  let labels ← LabelTable.extend [] (Fold.bindings 0 entries)
  return ⟨(Fold.instructions entries).toArray, labels⟩

/-- The number of instructions. -/
def size (program : Program) : Nat :=
  program.instructions.size

/-- The position that a label is bound to. -/
def resolve (program : Program) (label : String) : Option Nat :=
  program.labels.lookup label

/-- The labels bound to the end of the program, in table order. -/
def endLabels (program : Program) : List String :=
  (program.labels.filter fun binding => binding.2 == program.size).map (·.1)

/-- Whether two programs have the same instructions and bind the same labels to the same
positions, in whatever order. -/
def agrees (p q : Program) : Bool :=
  p.instructions == q.instructions && p.labels.length == q.labels.length
    && p.labels.all fun binding => q.labels.contains binding

end Program

end Clerk
