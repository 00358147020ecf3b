import Clerk.Number

/-!
# Values

What the register and a memory cell can hold: a number, a single character, or nothing.  A digit
as a character is a different value from the number it spells.
-/

set_option autoImplicit false

namespace Clerk

/-- The content of the register or of a memory cell. -/
inductive Value where
  | number (n : Number)
  | character (c : Char)
  | empty
  deriving DecidableEq, Repr

namespace Value

/-- Whether there is nothing. -/
def isEmpty : Value → Bool
  | .empty => true
  | _ => false

/-- The number held, if it is one. -/
def number? : Value → Option Number
  | .number n => some n
  | _ => none

/-- Whether the value is the number zero. -/
def isZero : Value → Bool
  | .number n => n.val == 0
  | _ => false

/-- Whether the value is a number below zero. -/
def isNegative : Value → Bool
  | .number n => decide (n.val < 0)
  | _ => false

/-- A value as text: a number in decimal, a character as itself. -/
def text : Value → String
  | .number n => n.text
  | .character c => String.singleton c
  | .empty => "[empty]"

/-- A list of values as text, with a comma and a space between two. -/
def listText (values : List Value) : String :=
  String.intercalate ", " (values.map text)

end Value

end Clerk
