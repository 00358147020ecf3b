import Clerk.Value

/-!
# Memory

A fixed number of cells, numbered from zero and empty at first.  `slot` turns a number into the
position of a cell when there is such a cell.
-/

set_option autoImplicit false

namespace Clerk

/-- The cells of the machine, in order. -/
structure Memory where
  cells : Array Value
  deriving DecidableEq, Repr

namespace Memory

/-- A memory of empty cells. -/
def ofSize (size : Nat) : Memory :=
  ⟨Array.replicate size .empty⟩

/-- The number of cells. -/
def size (memory : Memory) : Nat :=
  memory.cells.size

/-- The position of the cell with this address, if it exists. -/
def slot (memory : Memory) (address : Number) : Option Nat :=
  if 0 ≤ address.val ∧ address.val < memory.size then some address.val.toNat else none

/-- The content of a cell; outside the memory there is nothing. -/
def read (memory : Memory) (slot : Nat) : Value :=
  memory.cells.getD slot .empty

/-- The memory with a cell replaced; outside the memory nothing changes. -/
def write (memory : Memory) (slot : Nat) (value : Value) : Memory :=
  ⟨memory.cells.setIfInBounds slot value⟩

/-- The cells that hold something, each as `[slot]=value`. -/
def cellTexts (slot : Nat) : List Value → List String
  | [] => []
  | value :: rest =>
    if value.isEmpty then cellTexts (slot + 1) rest
    else ("[" ++ Decimal.text slot ++ "]=" ++ value.text) :: cellTexts (slot + 1) rest

/-- The cells that hold something, as text. -/
def text (memory : Memory) : String :=
  "Memory\x7b" ++ String.intercalate ", " (cellTexts 0 memory.cells.toList) ++ "\x7d"

@[simp]
theorem size_write (memory : Memory) (slot : Nat) (value : Value) :
    (memory.write slot value).size = memory.size := by
  simp [write, size]

theorem slot_lt {memory : Memory} {address : Number} {slot : Nat}
    (h : memory.slot address = some slot) : slot < memory.size := by
  unfold Memory.slot at h
  split at h
  · cases h; omega
  · cases h

end Memory

end Clerk
