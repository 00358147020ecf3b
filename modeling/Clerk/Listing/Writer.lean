import Clerk.Listing.Reader
import Clerk.Program

/-!
# Writing listings

The canonical listing of a program: a header, then for each instruction its label line, its
comment and the operation, and at the end the labels that stand for the end of the program.
-/

set_option autoImplicit false

namespace Clerk

namespace Listing

/-- The first line of every listing that is written. -/
def header : String :=
  "-- MAILROOM PROGRAM --"

/-- A label line. -/
def labelLine (label : String) : String :=
  label ++ ":"

/-- The lines of a comment; blank lines are left out. -/
def commentLines (comment : String) : List String :=
  (Text.trimmedLines comment.toList).map fun line => "-- " ++ String.ofList line

/-- The lines of an instruction. -/
def instructionLines (instruction : Instruction) : List String :=
  instruction.label.toList.map labelLine
    ++ instruction.comment.toList.flatMap commentLines
    ++ ["\t" ++ instruction.op.text]

end Listing

namespace Program

/-- The lines of the canonical listing. -/
def listingLines (program : Program) : List String :=
  Listing.header :: program.instructions.toList.flatMap Listing.instructionLines
    ++ program.endLabels.map Listing.labelLine

/-- The canonical listing; the last line has no newline. -/
def listing (program : Program) : String :=
  String.intercalate "\n" program.listingLines

/-- The program of a listing. -/
def ofListing (text : String) : Except Error Program :=
  match Listing.entries text with
  | .error cause => .error (.reading cause)
  | .ok entries => ofEntries entries

end Program

end Clerk
