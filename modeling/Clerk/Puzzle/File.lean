import Clerk.Json.Shape
import Clerk.Json.Writer
import Clerk.Puzzle

/-!
# Puzzle files

A puzzle with a name, its input and one expected output, kept in JSON.  It is read from an object,
whose members may come in any order, or from a list of the five members in their order.  The name
and the expected output are required; an unknown member is ignored as long as it is well formed; a
known member may not come twice.
-/

set_option autoImplicit false

namespace Clerk

/-- A puzzle as a file holds it, with one input and the output expected for it. -/
structure PuzzleFile where
  name : String
  description : String
  memorySize : UInt64
  input : List Value
  expected : List Value
  deriving DecidableEq, Repr

namespace PuzzleFile

/-- The puzzle, which expects the same output for every input. -/
def puzzle (file : PuzzleFile) : Puzzle :=
  Puzzle.fixed file.memorySize.toNat file.expected

/-! ## Writing -/

/-- A list of values on one line. -/
def valuesJson (values : List Value) : String :=
  Json.compactList (values.map Value.json)

/-- A puzzle file, on one line. -/
def json (file : PuzzleFile) : String :=
  Json.compactObject
    [("name", Json.quoted file.name),
     ("description", Json.quoted file.description),
     ("memory_size", Decimal.text file.memorySize.toNat),
     ("input", valuesJson file.input),
     ("expected", valuesJson file.expected)]

/-! ## Reading -/

/-- Reads a string. -/
def text? : List Json.Token → Option String
  | [.string content] => (Json.assemble content).map String.ofList
  | _ => none

/-- Reads a number of cells: an integer of 64 bits without sign. -/
def size? : List Json.Token → Option UInt64
  | [.integer false n] => if h : n < UInt64.size then some (UInt64.ofNatLT n h) else none
  | _ => none

/-- Reads a value.  A minus sign before zero is refused. -/
def value? : List Json.Token → Option Value
  | [.null] => some .empty
  | [.integer false n] => (Number.ofInt? n).map .number
  | [.integer true n] => if n = 0 then none else (Number.ofInt? (-n)).map .number
  | [.string content] =>
    match Json.assemble content with
    | some [c] => some (.character c)
    | _ => none
  | _ => none

/-- Reads a list of values. -/
def values? (tokens : List Json.Token) : Option (List Value) := do
  let body ← Json.enclosed? .openBracket .closeBracket tokens
  (Json.items body).mapM value?

/-- Reads a member of an object: its key and the tokens of its value. -/
def member? : List Json.Token → Option (String × List Json.Token)
  | .string content :: .colon :: value =>
    (Json.assemble content).map fun key => (String.ofList key, value)
  | _ => none

/-- The members found so far. -/
structure Draft where
  name : Option String := none
  description : Option String := none
  memorySize : Option UInt64 := none
  input : Option (List Value) := none
  expected : Option (List Value) := none

/-- Fills a place that is still free. -/
def fill {α : Type} (place : Option α) (value : Option α) : Option (Option α) :=
  match place with
  | none => value.map some
  | some _ => none

/-- Adds a member. -/
def Draft.add (draft : Draft) (key : String) (value : List Json.Token) : Option Draft :=
  match key with
  | "name" => (fill draft.name (text? value)).map fun name => { draft with name }
  | "description" =>
    (fill draft.description (text? value)).map fun description => { draft with description }
  | "memory_size" =>
    (fill draft.memorySize (size? value)).map fun memorySize => { draft with memorySize }
  | "input" => (fill draft.input (values? value)).map fun input => { draft with input }
  | "expected" => (fill draft.expected (values? value)).map fun expected => { draft with expected }
  | _ => if Json.isValue value then some draft else none

/-- Adds members one after the other. -/
def Draft.addAll (draft : Draft) : List (List Json.Token) → Option Draft
  | [] => some draft
  | item :: rest => do
    let (key, value) ← member? item
    let next ← draft.add key value
    next.addAll rest

/-- The file, once all members are there that have to be. -/
def Draft.finish (draft : Draft) : Option PuzzleFile := do
  let name ← draft.name
  let expected ← draft.expected
  return { name
           description := draft.description.getD ""
           memorySize := draft.memorySize.getD 0
           input := draft.input.getD []
           expected }

/-- Reads the members of an object. -/
def ofMembers? (members : List (List Json.Token)) : Option PuzzleFile := do
  let draft ← Draft.addAll {} members
  draft.finish

/-- Reads the items of a list. -/
def ofItems? : List (List Json.Token) → Option PuzzleFile
  | [name, description, memorySize, input, expected] => do
    return { name := ← text? name
             description := ← text? description
             memorySize := ← size? memorySize
             input := ← values? input
             expected := ← values? expected }
  | _ => none

/-- Reads the tokens of a puzzle file. -/
def ofTokens? (tokens : List Json.Token) : Option PuzzleFile :=
  match Json.enclosed? .openBrace .closeBrace tokens with
  | some body => ofMembers? (Json.items body)
  | none => do
    let body ← Json.enclosed? .openBracket .closeBracket tokens
    ofItems? (Json.items body)

/-- Reads a puzzle file. -/
def ofJson? (text : String) : Option PuzzleFile := do
  let tokens ← Json.tokens text.toList
  ofTokens? tokens

end PuzzleFile

end Clerk
