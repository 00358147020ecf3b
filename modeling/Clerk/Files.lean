/-!
# Files

Commands see files as a function from paths to contents.  `Files.ofDirectory` is that function for
a working directory that holds text files and no directories; nothing else is taken to exist.
-/

set_option autoImplicit false

namespace Clerk

/-- The content of each file, or the reason why it cannot be read. -/
abbrev Files := String → Except String String

namespace Files

/-- What stands in the way of reading a file: a part of the path names nothing, the path goes on
after a file, it leads to a directory, or it or a part of it is longer than a name can be. -/
inductive Obstacle where
  | missing
  | notDirectory
  | isDirectory
  | nameTooLong
  deriving DecidableEq, Repr

/-- An obstacle in words. -/
def Obstacle.text : Obstacle → String
  | .missing => "No such file or directory (os error 2)"
  | .notDirectory => "Not a directory (os error 20)"
  | .isDirectory => "Is a directory (os error 21)"
  | .nameTooLong => "File name too long (os error 36)"

/-- Where a path leads: to the working directory, to some other directory, or to a file. -/
inductive Place where
  | inside
  | outside
  | file (content : String)
  deriving DecidableEq, Repr

/-- Where a name leads to from a directory. -/
def Place.enter (contents : String → Option String) (place : Place) (name : String) :
    Except Obstacle Place :=
  if 255 < name.utf8ByteSize then .error .nameTooLong
  else
    match place, contents name with
    | .inside, some content => .ok (.file content)
    | _, _ => .error .missing

/-- Where one part of a path leads to.  A dot and nothing at all stay in place. -/
def Place.follow (contents : String → Option String) (place : Place) (part : String) :
    Except Obstacle Place :=
  match place with
  | .file _ => .error .notDirectory
  | directory =>
    if part = "" ∨ part = "." then .ok directory
    else if part = ".." then .ok .outside
    else directory.enter contents part

/-- Where a path leads, if it leads anywhere.  A path that begins with a slash begins outside. -/
def locate (contents : String → Option String) (path : String) : Except Obstacle Place :=
  if path = "" then .error .missing
  else if 4095 < path.utf8ByteSize then .error .nameTooLong
  else
    let parts := (path.toList.splitOn '/').map String.ofList
    let start := if parts.head? = some "" then Place.outside else Place.inside
    parts.foldlM (Place.follow contents) start

/-- The files of a working directory, given by name. -/
def ofDirectory (contents : String → Option String) : Files := fun path =>
  match locate contents path with
  | .ok (.file content) => .ok content
  | .ok _ => .error Obstacle.isDirectory.text
  | .error obstacle => .error obstacle.text

end Files

end Clerk
