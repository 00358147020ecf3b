import Clerk.Label
import Clerk.Op

/-!
# Reading operations

An operation is written as its keyword, in any case, and its operand, with blanks between and
around them.  A keyword that is not known is reported first, then a word after the operand, then
what the keyword makes of its operand.
-/

set_option autoImplicit false

namespace Clerk

namespace Address

/-- Reads an address: a number, or a number in brackets with blanks inside them. -/
def ofChars? : List Char → Option Address
  | '[' :: rest =>
    if rest.getLast? = some ']' then
      (Number.ofChars? (Text.trim rest.dropLast)).map .indirect
    else none
  | operand => (Number.ofChars? operand).map .direct

/-- Reads an address from its characters; what is no address is reported as a whole. -/
def ofChars (operand : List Char) : Except ReadError Address :=
  match ofChars? operand with
  | some address => .ok address
  | none => .error (.badAddress (String.ofList operand))

/-- `ofChars` for an operand that is given as a string. -/
def ofText (operand : String) : Except ReadError Address :=
  ofChars operand.toList

end Address

namespace Op

/-- A keyword that stands alone. -/
def ofKeyword : Keyword → Except ReadError Op
  | .inbox => .ok .inbox
  | .outbox => .ok .outbox
  | keyword => .error (.missingOperand keyword.mnemonic)

/-- A keyword with an operand. -/
def ofOperand (keyword : Keyword) (operand : List Char) : Except ReadError Op :=
  match keyword with
  | .cell kind => do return .cell kind (← Address.ofChars operand)
  | .jump test => do return .jump test (← Label.ofString (String.ofList operand))
  | keyword => .error (.unexpectedOperand keyword.mnemonic (String.ofList operand))

/-- The operation spelled by the words of a line. -/
def ofWords (words : List (List Char)) : Except ReadError Op :=
  let first := words.headD []
  match Keyword.ofChars? first with
  | none => .error (.unknownKeyword (String.ofList first))
  | some keyword =>
    match words.tail with
    | [] => ofKeyword keyword
    | [operand] => ofOperand keyword operand
    | _ :: extra :: _ => .error (.unexpectedOperand keyword.mnemonic (String.ofList extra))

/-- Reads an operation from the characters of its line. -/
def ofChars (line : List Char) : Except ReadError Op :=
  ofWords (Text.words line)

/-- `ofChars` for a line that is given as a string. -/
def ofText (line : String) : Except ReadError Op :=
  ofChars line.toList

end Op

end Clerk
