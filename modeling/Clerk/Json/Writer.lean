import Clerk.Json.Quoted
import Clerk.Value

/-!
# Writing JSON

A value is written without a tag: a number as an integer, a character as a string, nothing as
`null`.  Objects and lists are written in two layouts, on one line without spaces or on lines of
their own with an indentation of two spaces.
-/

set_option autoImplicit false

namespace Clerk

/-- A value in JSON. -/
def Value.json : Value → String
  | .number n => n.text
  | .character c => Json.quoted (String.singleton c)
  | .empty => "null"

namespace Json

/-- A list on one line. -/
def compactList (items : List String) : String :=
  "[" ++ String.intercalate "," items ++ "]"

/-- A member of an object on one line. -/
def compactMember (key value : String) : String :=
  quoted key ++ ":" ++ value

/-- An object on one line. -/
def compactObject (members : List (String × String)) : String :=
  "\x7b" ++ String.intercalate "," (members.map fun member => compactMember member.1 member.2)
    ++ "\x7d"

/-- A list inside an object, with each item on a line of its own. -/
def indentedList (items : List String) : String :=
  if items.isEmpty then "[]"
  else "[\n" ++ String.intercalate ",\n" (items.map fun item => "    " ++ item) ++ "\n  ]"

/-- A member of an object on a line of its own. -/
def indentedMember (key value : String) : String :=
  "  " ++ quoted key ++ ": " ++ value

/-- An object with each member on a line of its own. -/
def indentedObject (members : List (String × String)) : String :=
  "\x7b\n" ++ String.intercalate ",\n" (members.map fun member => indentedMember member.1 member.2)
    ++ "\n\x7d"

end Json

end Clerk
