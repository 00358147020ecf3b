import Clerk.Error

/-!
# Labels

A listing has three marks of its own: `--` starts a comment, a line that begins with the word
`DEFINE` opens a metadata block, and a line that ends in a semicolon closes it.

A *label* is any name that can stand in a listing without being mistaken for something else: it is
not empty, holds no blank, colon or bracket, holds no comment mark and does not begin like a
metadata block.
-/

set_option autoImplicit false

namespace Clerk

/-! ## The marks of a listing -/

namespace Listing

/-- Whether a text holds a comment mark. -/
def hasComment : List Char → Bool
  | [] => false
  | '-' :: '-' :: _ => true
  | _ :: rest => hasComment rest

/-- The text before its first comment mark. -/
def beforeComment : List Char → List Char
  | [] => []
  | '-' :: '-' :: _ => []
  | c :: rest => c :: beforeComment rest

/-- Whether a trimmed line opens a metadata block. -/
def opensMetadata (line : List Char) : Bool :=
  Text.sameLetters (line.take 6) ['D', 'E', 'F', 'I', 'N', 'E']

/-- Whether a trimmed line ends a metadata block. -/
def closesMetadata (line : List Char) : Bool :=
  line.getLast? == some ';'

end Listing

/-! ## Names -/

namespace Label

/-- Whether a character may stand in a label. -/
def isLabelChar (c : Char) : Bool :=
  !(Text.isBlank c || c == ':' || c == '[' || c == ']')

/-- Whether the characters of a name make it a label; this is where the rules for labels stand. -/
def isLabel (name : List Char) : Bool :=
  !name.isEmpty && !Listing.hasComment name && !Listing.opensMetadata name
    && name.all isLabelChar

/-- `isLabel` for a name that is given as a string. -/
def isValid (name : String) : Bool :=
  isLabel name.toList

/-- The name as a label. -/
def ofString (name : String) : Except ReadError String :=
  if isValid name then .ok name else .error (.badLabel name)

end Label

end Clerk
