import Clerk.Entry

/-!
# Folding

Folding drops the marks from a list of entries.  A mark hands its label to the next entry; an
entry that has a label of its own keeps it, and every jump to the label that gave way is renamed.
Renamings are made one after the other, in the order of the entries.

* `Fold.instructions` — the instructions of a list of entries;
* `Fold.bindings` — each label with the number of operations before it.
-/

set_option autoImplicit false

namespace Clerk

/-- The label that an entry hands on.  A mark hands on its own label, or else the one that was
handed to it; an operation keeps what it gets. -/
def Entry.handOn (carried : Option String) (entry : Entry) : Option String :=
  match entry.op with
  | none => entry.label.or carried
  | some _ => none

namespace Fold

/-- The operations in order.  The first argument is the label handed to the next entry. -/
def settle : Option String → List Entry → List Instruction
  | _, [] => []
  | carried, entry :: rest =>
    match entry.op with
    | none => settle (entry.handOn carried) rest
    | some op => ⟨op, entry.label.or carried, entry.comment⟩ :: settle none rest

/-- The labels that gave way, each with the label that took its place. -/
def aliases : Option String → List Entry → List (String × String)
  | _, [] => []
  | carried, entry :: rest =>
    let later := aliases (entry.handOn carried) rest
    match carried, entry.label with
    | some old, some new => if old = new then later else (old, new) :: later
    | _, _ => later

/-- A label after all renamings, made one after the other. -/
def renamed (renamings : List (String × String)) (label : String) : String :=
  renamings.foldl (fun current pair => if current = pair.1 then pair.2 else current) label

/-- The instructions of a list of entries. -/
def instructions (entries : List Entry) : List Instruction :=
  (settle none entries).map (Instruction.retarget (renamed (aliases none entries)))

/-- Each label with the number of operations before it, counted from `position`. -/
def bindings (position : Nat) : List Entry → List (String × Nat)
  | [] => []
  | entry :: rest =>
    entry.label.toList.map (·, position)
      ++ bindings (if entry.isMark then position else position + 1) rest

end Fold

end Clerk
