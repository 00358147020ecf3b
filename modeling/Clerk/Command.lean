import Clerk.Text

/-!
# Commands

What the command line asks for.  `Command.ofArguments?` reads the arguments; a list that makes no
command is refused as a whole.

The first argument names the command.  Flags are written `--flag value` or `--flag=value`, may come
in any order with the path of the program, and may come once; after `--` there are no more flags.
The flags for lists of values take the next argument whatever it looks like.
-/

set_option autoImplicit false

namespace Clerk

/-- Where the puzzle for a run comes from: a puzzle file, or lists of values as they are written and
a number of memory cells. -/
inductive PuzzleSource where
  | file (path : String)
  | given (input expected : String) (memorySize : UInt64)
  deriving DecidableEq, Repr

/-- What to do: run a program and report on it, print its canonical listing, or tell its size. -/
inductive Command where
  | run (program : String) (source : PuzzleSource) (json : Bool)
  | format (program : String)
  | check (program : String)
  deriving DecidableEq, Repr

namespace Command

/-- A flag of the command `run`. -/
inductive Flag where
  | puzzle
  | input
  | expect
  | memory
  | json
  deriving DecidableEq, Repr

/-- The flag with a name. -/
def Flag.ofName? : String → Option Flag
  | "puzzle" => some .puzzle
  | "input" => some .input
  | "expect" => some .expect
  | "memory" => some .memory
  | "json" => some .json
  | _ => none

/-- How a flag is written. -/
def Flag.text : Flag → String
  | .puzzle => "--puzzle"
  | .input => "--input"
  | .expect => "--expect"
  | .memory => "--memory"
  | .json => "--json"

/-- Whether an argument looks like a flag.  A single hyphen does not. -/
def looksLikeFlag (argument : String) : Bool :=
  match argument.toList with
  | '-' :: _ :: _ => true
  | _ => false

/-- Whether a flag takes an argument of its own as its value.  A list of values may look like a
flag, a path or a number may not. -/
def Flag.takes (flag : Flag) (value : String) : Bool :=
  match flag with
  | .input | .expect => true
  | .puzzle | .memory => !looksLikeFlag value
  | .json => false

/-- What an argument is: the path of a program, a flag with its value if that is attached, or
nothing that makes sense. -/
inductive Argument where
  | path (text : String)
  | flag (flag : Flag) (value : Option String)
  | unknown
  deriving DecidableEq, Repr

/-- A name and, after an equals sign, a value. -/
def splitFlag (text : List Char) : String × Option String :=
  (String.ofList (text.takeWhile (· ≠ '=')),
    match text.dropWhile (· ≠ '=') with
    | _ :: value => some (String.ofList value)
    | [] => none)

/-- What an argument is, as long as flags are allowed. -/
def Argument.ofString (argument : String) : Argument :=
  match argument.toList with
  | '-' :: '-' :: text =>
    match Flag.ofName? (splitFlag text).1 with
    | some known => .flag known (splitFlag text).2
    | none => .unknown
  | _ => if looksLikeFlag argument then .unknown else .path argument

/-- The arguments of `run` found so far. -/
structure Given where
  program : Option String := none
  puzzle : Option String := none
  input : Option String := none
  expect : Option String := none
  memory : Option String := none
  json : Bool := false
  deriving DecidableEq, Repr

namespace Given

/-- Takes a path; there is only one, and it is not empty. -/
def addPath (given : Given) (path : String) : Option Given :=
  if given.program.isSome || path.isEmpty then none else some { given with program := some path }

/-- Takes a flag with a value; none comes twice, and a path is not empty. -/
def addValue (given : Given) (flag : Flag) (value : String) : Option Given :=
  match flag with
  | .puzzle =>
    if given.puzzle.isSome || value.isEmpty then none
    else some { given with puzzle := some value }
  | .input => if given.input.isSome then none else some { given with input := some value }
  | .expect => if given.expect.isSome then none else some { given with expect := some value }
  | .memory => if given.memory.isSome then none else some { given with memory := some value }
  | .json => none

/-- Takes the flag that has no value. -/
def addJson (given : Given) : Option Given :=
  if given.json then none else some { given with json := true }

/-- Takes paths. -/
def addPaths (given : Given) : List String → Option Given
  | [] => some given
  | path :: rest => (given.addPath path).bind fun next => next.addPaths rest

/-- Takes arguments one after the other. -/
def addAll (given : Given) : List String → Option Given
  | [] => some given
  | argument :: rest =>
    if argument = "--" then given.addPaths rest
    else
      match Argument.ofString argument with
      | .unknown => none
      | .path path => (given.addPath path).bind fun next => next.addAll rest
      | .flag flag (some value) => (given.addValue flag value).bind fun next => next.addAll rest
      | .flag .json none => given.addJson.bind fun next => next.addAll rest
      | .flag flag none =>
        match rest with
        | [] => none
        | value :: later =>
          if flag.takes value then (given.addValue flag value).bind fun next => next.addAll later
          else none

/-- A number of cells: digits after an optional plus sign, of 64 bits. -/
def cells? (text : String) : Option UInt64 :=
  let digits :=
    match text.toList with
    | '+' :: digits => digits
    | digits => digits
  (Decimal.toNat? digits).bind fun n =>
    if h : n < UInt64.size then some (UInt64.ofNatLT n h) else none

/-- The puzzle: from a file, or else from values, but not from both. -/
def source? (given : Given) : Option PuzzleSource :=
  match given.puzzle with
  | some path =>
    if given.input.isSome || given.expect.isSome || given.memory.isSome then none
    else some (.file path)
  | none =>
    (cells? (given.memory.getD "0")).map
      (.given (given.input.getD "") (given.expect.getD ""))

end Given

/-- The command `run` with its arguments. -/
def runOfArguments? (arguments : List String) : Option Command := do
  let given ← Given.addAll {} arguments
  let program ← given.program
  let source ← given.source?
  return .run program source given.json

/-- The arguments of a command without flags. -/
def plainArguments? : List String → Option (List String)
  | [] => some []
  | argument :: rest =>
    if argument = "--" then some rest
    else if looksLikeFlag argument then none
    else (plainArguments? rest).map (argument :: ·)

/-- The only argument of a command without flags. -/
def onlyPath? (arguments : List String) : Option String :=
  match plainArguments? arguments with
  | some [path] => if path.isEmpty then none else some path
  | _ => none

/-- The command of a list of arguments.  To ask for help is no command. -/
def ofArguments? : List String → Option Command
  | "run" :: arguments => runOfArguments? arguments
  | "fmt" :: arguments => (onlyPath? arguments).map .format
  | "check" :: arguments => (onlyPath? arguments).map .check
  | _ => none

/-- The files that a command reads. -/
def paths : Command → List String
  | .run program (.file path) _ => [program, path]
  | .run program (.given _ _ _) _ => [program]
  | .format program => [program]
  | .check program => [program]

end Command

end Clerk
