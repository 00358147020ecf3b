import Clerk.Error

/-!
# Operations on values

What is done with values and can fail.

* Arithmetic between the register and a memory cell is checked.  Of two operands that are no numbers
  the cell is reported; a result out of range is an overflow.
* A value is written as a number or as a single character; a text that is both, such as `7`, is the
  number.  A list of values is written with commas between them, and blanks around a value do not
  count.
-/

set_option autoImplicit false

namespace Clerk.Value

/-! ## Arithmetic -/

/-- A result of arithmetic as a value; no result is an overflow. -/
def ofResult (operation : Arithmetic) : Option Number → Except Fault Value
  | some n => .ok (.number n)
  | none => .error (.overflow operation)

/-- The register and the cell at `slot`, as numbers. -/
def operands (operation : Arithmetic) (register cell : Value) (slot : Nat) :
    Except Fault (Number × Number) :=
  match cell, register with
  | .number b, .number a => .ok (a, b)
  | .number _, _ => .error (.notANumber operation .register)
  | _, _ => .error (.notANumber operation (.cell slot))

/-- The register plus the cell at `slot`. -/
def add (register cell : Value) (slot : Nat) : Except Fault Value := do
  let (a, b) ← operands .addition register cell slot
  ofResult .addition (a.add? b)

/-- The register minus the cell at `slot`. -/
def sub (register cell : Value) (slot : Nat) : Except Fault Value := do
  let (a, b) ← operands .subtraction register cell slot
  ofResult .subtraction (a.sub? b)

/-- Faults call a change by a negative amount a decrement and any other an increment. -/
def bumpName (delta : Number) : Arithmetic :=
  if delta.val < 0 then .decrement else .increment

/-- The cell at `slot` changed by `delta`. -/
def bump (cell : Value) (delta : Number) (slot : Nat) : Except Fault Value :=
  match cell with
  | .number n => ofResult (bumpName delta) (n.add? delta)
  | _ => .error (.notANumber (bumpName delta) (.cell slot))

/-! ## Reading -/

/-- Reads a trimmed word: a number first, else one character. -/
def ofWord? (word : List Char) : Option Value :=
  match Number.ofChars? word with
  | some n => some (.number n)
  | none =>
    match word with
    | [c] => some (.character c)
    | _ => none

/-- Reads one value, blanks around it aside. -/
def ofText? (text : String) : Option Value :=
  ofWord? (Text.trim text.toList)

/-- Reads the words of a list in order; the first that is no value is the error. -/
def ofWords : List (List Char) → Except ReadError (List Value)
  | [] => .ok []
  | word :: rest =>
    match ofWord? word with
    | none => .error (.badValue (String.ofList word))
    | some value => do return value :: (← ofWords rest)

/-- Reads a list of values.  A text of blanks only is the empty list. -/
def listOfText (text : String) : Except ReadError (List Value) :=
  if (Text.trim text.toList).isEmpty then .ok []
  else ofWords ((text.toList.splitOn ',').map Text.trim)

end Clerk.Value
