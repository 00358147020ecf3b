import Clerk.Command.Execute

/-!
# The command line

Reads the arguments and the files they name, and prints what the command answers.
-/

set_option autoImplicit false

namespace Clerk.Main

/-- The reason why a file cannot be read.  Opening a path names the file in its error; reading from
a directory does not. -/
def reason : IO.Error → String
  | .noFileOrDirectory _ _ _ => Files.Obstacle.missing.text
  | .inappropriateType (some _) _ _ => Files.Obstacle.notDirectory.text
  | .inappropriateType none _ _ => Files.Obstacle.isDirectory.text
  | .invalidArgument (some _) _ _ => Files.Obstacle.nameTooLong.text
  | cause => toString cause

/-- The content of a file, or the reason why there is none. -/
def readFile (path : String) : IO (Except String String) := do
  match ← (IO.FS.readFile path).toBaseIO with
  | .ok text => return .ok text
  | .error cause => return .error (reason cause)

/-- The contents of the files at the given paths. -/
def readFiles (paths : List String) : IO Files := do
  let contents ← paths.mapM fun path => do return (path, ← readFile path)
  return fun path => (contents.lookup path).getD (.error "")

/-- Carries out a command, with twice the steps each time until they are enough. -/
partial def finish (files : Files) (command : Command) (limit : Nat) : IO Response :=
  match command.execute files limit with
  | some response => return response
  | none => finish files command (2 * limit)

end Clerk.Main

open Clerk in
def main (arguments : List String) : IO UInt32 := do
  match Command.ofArguments? arguments with
  | none =>
    IO.eprintln "error: usage: run|fmt|check PROGRAM [FLAGS]"
    return 2
  | some command =>
    let files ← Main.readFiles command.paths
    let response ← Main.finish files command 1000000000000000000
    IO.print response.output
    if let some message := response.error then IO.eprintln ("error: " ++ message)
    return response.exitCode.toUInt32
