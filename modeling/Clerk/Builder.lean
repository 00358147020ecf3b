import Clerk.Label
import Clerk.Program

/-!
# Builders

A builder puts a program together call by call.  A label or a comment that is given on its own
goes to the entry added last.  Every label and every target of a jump has to be fit for a
listing.
-/

set_option autoImplicit false

namespace Clerk

/-- The entries added so far. -/
structure Builder where
  entries : Array Entry := #[]
  deriving DecidableEq, Repr

namespace Builder

/-- Adds an entry. -/
def push (builder : Builder) (entry : Entry) : Builder :=
  ⟨builder.entries.push entry⟩

/-- Adds an operation. -/
def pushOp (builder : Builder) (op : Op) : Builder :=
  builder.push (Entry.ofOp op)

/-- Adds a mark: the label is for the next operation. -/
def mark (builder : Builder) (label : String) : Builder :=
  builder.push (Entry.mark label)

/-- Changes the entry added last, if there is one. -/
def modifyLast (builder : Builder) (change : Entry → Entry) : Builder :=
  ⟨builder.entries.modify (builder.entries.size - 1) change⟩

/-- Labels the entry added last. -/
def withLabel (builder : Builder) (label : String) : Builder :=
  builder.modifyLast fun entry => { entry with label := some label }

/-- Comments the entry added last; a blank comment is ignored. -/
def withComment (builder : Builder) (comment : String) : Builder :=
  if (Text.trim comment.toList).isEmpty then builder
  else builder.modifyLast fun entry => { entry with comment := some comment }

/-- The first name among the labels and targets that is no label. -/
def badName? (builder : Builder) : Option String :=
  (builder.entries.toList.flatMap Entry.names).find? fun name => !Label.isValid name

/-- The finished program. -/
def build (builder : Builder) : Except Error Program :=
  match builder.badName? with
  | some name => .error (.reading (.badLabel name))
  | none => Program.ofEntries builder.entries.toList

end Builder

end Clerk
