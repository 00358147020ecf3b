import Clerk.Op

/-!
# Entries and instructions

A program is first a list of *entries*, as they stand in a listing or as a builder adds them.  An
entry without an operation is a bare *mark*: it only carries a label for what comes next.  An
*instruction* is an entry of a finished program and always has its operation.
-/

set_option autoImplicit false

namespace Clerk

/-- An element of a program that is being put together.  A mark has no operation; a comment is kept
but has no meaning. -/
structure Entry where
  op : Option Op
  label : Option String := none
  comment : Option String := none
  deriving DecidableEq, Repr

/-- An element of a finished program.  A jump to its label goes here; a comment is kept but has no
meaning. -/
structure Instruction where
  op : Op
  label : Option String := none
  comment : Option String := none
  deriving DecidableEq, Repr

namespace Entry

/-- An operation without label and comment. -/
def ofOp (op : Op) : Entry :=
  ⟨some op, none, none⟩

/-- A bare mark. -/
def mark (label : String) : Entry :=
  ⟨none, some label, none⟩

/-- Whether the entry has no operation. -/
def isMark (entry : Entry) : Bool :=
  entry.op.isNone

/-- The label of the entry and, after it, the label that its jump goes to. -/
def names (entry : Entry) : List String :=
  entry.label.toList ++ (entry.op.bind Op.target?).toList

end Entry

namespace Instruction

/-- The instruction as an entry. -/
def toEntry (instruction : Instruction) : Entry :=
  ⟨some instruction.op, instruction.label, instruction.comment⟩

/-- The instruction with the label of its jump replaced. -/
def retarget (rename : String → String) (instruction : Instruction) : Instruction :=
  { instruction with op := instruction.op.retarget rename }

end Instruction

end Clerk
