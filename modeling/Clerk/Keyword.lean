import Clerk.Text

/-!
# Keywords

The eleven operations of the machine without their operands, how each is spelled, and what kind of
operand it takes.  `Keyword.ofChars?` finds a keyword by its spelling in any case.
-/

set_option autoImplicit false

namespace Clerk

/-- The operations on one memory cell. -/
inductive CellOp where
  | copyFrom
  | copyTo
  | add
  | sub
  | bumpUp
  | bumpDown
  deriving DecidableEq, Repr

/-- What a conditional jump asks of the register. -/
inductive Test where
  | zero
  | negative
  deriving DecidableEq, Repr

/-- An operation without its operand.  A jump without a test is always taken. -/
inductive Keyword where
  | inbox
  | outbox
  | cell (kind : CellOp)
  | jump (test : Option Test)
  deriving DecidableEq, Repr

/-- What a keyword wants after it. -/
inductive OperandKind where
  | nothing
  | address
  | label
  deriving DecidableEq, Repr

/-- The spelling of an operation on a cell. -/
def CellOp.mnemonic : CellOp → String
  | .copyFrom => "COPYFROM"
  | .copyTo => "COPYTO"
  | .add => "ADD"
  | .sub => "SUB"
  | .bumpUp => "BUMPUP"
  | .bumpDown => "BUMPDN"

/-- The spelling of the conditional jump with this test. -/
def Test.mnemonic : Test → String
  | .zero => "JUMPZ"
  | .negative => "JUMPN"

namespace Keyword

/-- The canonical spelling. -/
def mnemonic : Keyword → String
  | .inbox => "INBOX"
  | .outbox => "OUTBOX"
  | .cell kind => kind.mnemonic
  | .jump none => "JUMP"
  | .jump (some test) => test.mnemonic

/-- The kind of operand that the keyword takes. -/
def operandKind : Keyword → OperandKind
  | .inbox | .outbox => .nothing
  | .cell _ => .address
  | .jump _ => .label

/-- Every keyword once. -/
def all : List Keyword :=
  [.inbox, .outbox, .cell .copyFrom, .cell .copyTo, .cell .add, .cell .sub, .cell .bumpUp,
   .cell .bumpDown, .jump none, .jump (some .zero), .jump (some .negative)]

/-- The keyword with this spelling, in any case. -/
def ofChars? (s : List Char) : Option Keyword :=
  all.find? fun keyword => Text.sameLetters keyword.mnemonic.toList s

theorem mem_all (keyword : Keyword) : keyword ∈ all := by
  rcases keyword with _ | _ | kind | test
  · decide
  · decide
  · cases kind <;> decide
  · rcases test with _ | test
    · decide
    · cases test <;> decide

end Keyword

end Clerk
