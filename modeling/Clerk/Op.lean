import Clerk.Keyword
import Clerk.Number

/-!
# Operations

An operation is a keyword with its operand: an address for the operations on a cell, a label for
the jumps.  `Op.text` is its spelling in a listing.
-/

set_option autoImplicit false

namespace Clerk

/-- Which cell an operation works on: the one with this number, or the one whose number is held by
the cell with this number. -/
inductive Address where
  | direct (index : Number)
  | indirect (index : Number)
  deriving DecidableEq, Repr

namespace Address

/-- The number that the address is written with. -/
def index : Address → Number
  | .direct index => index
  | .indirect index => index

/-- Whether the address goes through a pointer. -/
def isIndirect : Address → Bool
  | .direct _ => false
  | .indirect _ => true

/-- The spelling of an address: a number, in brackets when it is indirect. -/
def text : Address → String
  | .direct index => index.text
  | .indirect index => "[" ++ index.text ++ "]"

end Address

/-- An operation of the machine.  A jump without a test is always taken. -/
inductive Op where
  | inbox
  | outbox
  | cell (kind : CellOp) (address : Address)
  | jump (test : Option Test) (target : String)
  deriving DecidableEq, Repr

namespace Op

/-- The keyword of an operation. -/
def keyword : Op → Keyword
  | .inbox => .inbox
  | .outbox => .outbox
  | .cell kind _ => .cell kind
  | .jump test _ => .jump test

/-- The spelling of the keyword. -/
def mnemonic (op : Op) : String :=
  op.keyword.mnemonic

/-- The spelling of the operand, if there is one. -/
def operand? : Op → Option String
  | .inbox | .outbox => none
  | .cell _ address => some address.text
  | .jump _ target => some target

/-- The label that a jump goes to. -/
def target? : Op → Option String
  | .jump _ target => some target
  | _ => none

/-- The operation with its label, if it is a jump, replaced. -/
def retarget (rename : String → String) : Op → Op
  | .jump test target => .jump test (rename target)
  | op => op

/-- The spelling of an operation: the keyword and, after a tab, the operand. -/
def text (op : Op) : String :=
  match op.operand? with
  | none => op.mnemonic
  | some operand => op.mnemonic ++ "\t" ++ operand

end Op

end Clerk
