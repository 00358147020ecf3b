import Clerk.Entry
import Clerk.Op.Reader

/-!
# Reading listings

Each line of a listing is one of four things: nothing or only a comment, the opening line of a
metadata block, a line of labels, or an operation.  The tests are made in a fixed order: a metadata
block is recognised before comments are cut off, and what is left after the cut is a label line
when it ends in a colon and an operation otherwise.

A listing is read line by line.  Inside a metadata block lines are skipped up to one that ends in
a semicolon; the first line that cannot be read is the error of the whole listing.
-/

set_option autoImplicit false

namespace Clerk.Listing

/-! ## Lines -/

/-- What a line of a listing is.  A blank line may hold a comment, and a metadata line is the
opening line of its block. -/
inductive Line where
  | blank
  | metadata (opening : List Char)
  | labels (names : List (List Char))
  | code (text : List Char)
  deriving DecidableEq, Repr

namespace Line

/-- The names on a label line; two colons may meet. -/
def labelNames (code : List Char) : List (List Char) :=
  ((code.splitOn ':').map Text.trim).filter fun name => !name.isEmpty

/-- A line, from its trimmed text without comment. -/
def ofCode (code : List Char) : Line :=
  if code.isEmpty then .blank
  else if code.getLast? = some ':' then .labels (labelNames code)
  else .code code

/-- A line, from its trimmed text. -/
def ofTrimmed (line : List Char) : Line :=
  if opensMetadata line then .metadata line
  else ofCode (Text.trim (beforeComment line))

/-- A line, from its text as it stands in the listing. -/
def ofChars (line : List Char) : Line :=
  ofTrimmed (Text.trim line)

/-- The marks of a label line, in order; the first name that is no label is the error. -/
def marks : List (List Char) → Except ReadError (List Entry)
  | [] => .ok []
  | name :: rest => do
    let label ← Label.ofString (String.ofList name)
    return Entry.mark label :: (← marks rest)

/-- The entries on a line. -/
def entries : Line → Except ReadError (List Entry)
  | .blank => .ok []
  | .metadata _ => .ok []
  | .labels names => marks names
  | .code text => do return [Entry.ofOp (← Op.ofChars text)]

/-- The metadata block that is open after the line, by its opening line. -/
def openBlock : Line → Option (List Char)
  | .metadata opening => if closesMetadata opening then none else some opening
  | _ => none

end Line

/-! ## Listings -/

/-- Reads lines.  The first argument is the opening line of the metadata block that is open, if
one is. -/
def readLines : Option (List Char) → List (List Char) → Except ReadError (List Entry)
  | none, [] => .ok []
  | some opening, [] => .error (.unterminatedMetadata (String.ofList opening))
  | some opening, line :: rest =>
    readLines (if closesMetadata (Text.trim line) then none else some opening) rest
  | none, line :: rest => do
    let here ← (Line.ofChars line).entries
    let later ← readLines (Line.ofChars line).openBlock rest
    return here ++ later

/-- Reads a listing into its entries. -/
def entries (text : String) : Except ReadError (List Entry) :=
  readLines none (Text.lines text.toList)

end Clerk.Listing
