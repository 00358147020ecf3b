import Clerk.Command
import Clerk.Files
import Clerk.Listing.Writer
import Clerk.Puzzle.File

/-!
# Carrying out commands

Commands are carried out on the contents of files.  The program is loaded first, then the puzzle;
the first thing that cannot be had ends the command with an error.
-/

set_option autoImplicit false

namespace Clerk

/-- What a command leaves behind: an exit code, which is zero only if all went well, and what is
printed as output and as an error. -/
structure Response where
  exitCode : Nat
  output : String
  error : Option String
  deriving DecidableEq, Repr

namespace Command

/-- Why a command cannot be carried out: a file cannot be read, or holds no program or no puzzle, or
a flag is given no list of values. -/
inductive Refusal where
  | unreadable (path reason : String)
  | badProgram (path : String) (cause : Error)
  | badPuzzle (path : String)
  | badValues (flag : Flag) (cause : ReadError)
  deriving DecidableEq, Repr

/-- The message of a refusal.  It does not say what in a file keeps it from being a puzzle. -/
def Refusal.message : Refusal → String
  | .unreadable path reason => "cannot read " ++ path ++ ": " ++ reason
  | .badProgram path cause => path ++ ": " ++ cause.message
  | .badPuzzle path => "invalid puzzle " ++ path
  | .badValues flag cause => flag.text ++ ": " ++ cause.message

/-- The content of a file. -/
def load (files : Files) (path : String) : Except Refusal String :=
  match files path with
  | .ok text => .ok text
  | .error reason => .error (.unreadable path reason)

/-- The program in a file. -/
def loadProgram (files : Files) (path : String) : Except Refusal Program := do
  let text ← load files path
  match Program.ofListing text with
  | .ok program => .ok program
  | .error cause => .error (.badProgram path cause)

/-- The puzzle file at a path. -/
def loadPuzzle (files : Files) (path : String) : Except Refusal PuzzleFile := do
  let text ← load files path
  match PuzzleFile.ofJson? text with
  | some file => .ok file
  | none => .error (.badPuzzle path)

/-- The list of values given to a flag. -/
def readValues (flag : Flag) (text : String) : Except Refusal (List Value) :=
  match Value.listOfText text with
  | .ok values => .ok values
  | .error cause => .error (.badValues flag cause)

/-- The puzzle of a run and the input for it. -/
def loadSource (files : Files) : PuzzleSource → Except Refusal (Puzzle × List Value)
  | .file path => do
    let file ← loadPuzzle files path
    return (file.puzzle, file.input)
  | .given inputText expectedText memorySize => do
    let input ← readValues .input inputText
    let expected ← readValues .expect expectedText
    return (Puzzle.fixed memorySize.toNat expected, input)

/-- The response to a run that could be carried out. -/
def respond (json : Bool) (report : Report) : Response :=
  { exitCode := if report.isSuccess then 0 else 1
    output := (if json then report.json else report.text) ++ "\n"
    error := none }

/-- The response to a command that cannot be carried out. -/
def refuse (cause : Refusal) : Response :=
  ⟨1, "", some cause.message⟩

/-- The response to a command that prints a line. -/
def print (line : String) : Response :=
  ⟨0, line ++ "\n", none⟩

/-- Carries out a command, if its run ends within `limit` steps. -/
def execute (files : Files) (limit : Nat) : Command → Option Response
  | .run path source json =>
    match loadProgram files path with
    | .error cause => some (refuse cause)
    | .ok program =>
      match loadSource files source with
      | .error cause => some (refuse cause)
      | .ok (puzzle, input) => (puzzle.run? program input limit).map (respond json)
  | .format path =>
    match loadProgram files path with
    | .error cause => some (refuse cause)
    | .ok program => some (print program.listing)
  | .check path =>
    match loadProgram files path with
    | .error cause => some (refuse cause)
    | .ok program => some (print (path ++ ": " ++ Decimal.text program.size ++ " instructions"))

end Command

end Clerk
