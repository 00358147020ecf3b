import Clerk.Proofs.Layout

/-!
# Reading with a buffer of labels

A listing can also be read in one loop that keeps the entries read so far and, apart from them, the
labels that wait for an operation.  The labels go before the next operation, or to the end of the
entries when there is none, and a metadata block is skipped by a loop of its own.

* `Listing.Buffer.read` — the loop over the lines;
* `Listing.skipBlock` — the loop over the lines of a metadata block;
* `Listing.Buffer.contents` — all that a buffer holds, in the order of the text;
* `Listing.Buffer.contents_addLine` — a line adds its own entries to what is held;
* `Listing.Buffer.contents_read` — so do all lines;
* `Listing.Buffer.contents_read_eq_entries` — from an empty buffer the entries of the listing come.
-/

set_option autoImplicit false

namespace Clerk

namespace Listing

open Text

/-! ## Lines that are skipped -/

/-- The lines after a metadata block; there are none if no line ends the block.  The first argument
is the line of the block that is looked at, trimmed. -/
def skipBlock : List Char → List (List Char) → Option (List (List Char))
  | current, [] => if closesMetadata current then some [] else none
  | current, line :: rest =>
    if closesMetadata current then some (line :: rest) else skipBlock (trim line) rest

theorem length_skipBlock_le {current : List Char} {lines after : List (List Char)}
    (h : skipBlock current lines = some after) : after.length ≤ lines.length := by
  induction lines generalizing current with
  | nil =>
    rw [skipBlock] at h
    split at h
    · cases h
      exact Nat.le_refl _
    · cases h
  | cons line rest ih =>
    rw [skipBlock] at h
    split at h
    · cases h
      exact Nat.le_refl _
    · exact Nat.le_succ_of_le (ih h)

/-- Skipping a block at once comes to the same as going through its lines one by one. -/
theorem readLines_skipBlock (opening current : List Char) (rest : List (List Char)) :
    readLines (if closesMetadata current then none else some opening) rest =
      (skipBlock current rest).elim (.error (.unterminatedMetadata (String.ofList opening)))
        (readLines none) := by
  induction rest generalizing current with
  | nil =>
    rw [skipBlock]
    split <;> rfl
  | cons line rest ih =>
    rw [skipBlock]
    split
    · rfl
    · exact ih (trim line)

theorem readLines_metadata {line : List Char} (h : opensMetadata (trim line) = true)
    (rest : List (List Char)) :
    readLines none (line :: rest) =
      (skipBlock (trim line) rest).elim
        (.error (.unterminatedMetadata (String.ofList (trim line)))) (readLines none) := by
  rw [← readLines_skipBlock, readLines, ofChars_metadata h]
  show (readLines (if closesMetadata (trim line) then none else some (trim line)) rest).map _ = _
  cases readLines (if closesMetadata (trim line) then none else some (trim line)) rest <;> rfl

theorem filler_of_skip {line : List Char}
    (h : ((trim line).isEmpty || ['-', '-'].isPrefixOf (trim line)) = true) : Filler [line] := by
  rcases Bool.or_eq_true_iff.1 h with hempty | hcomment
  · exact .blank (List.isEmpty_iff.1 hempty)
  · exact .comment (List.isPrefixOf_iff_prefix.1 hcomment)

/-! ## The loop -/

/-- A trimmed line without its comment. -/
def withoutComment (line : List Char) : List Char :=
  if hasComment line then trim (beforeComment line) else line

/-- What has been read: the entries so far, and the labels that wait for an operation. -/
structure Buffer where
  raw : List Entry
  pending : List String

namespace Buffer

/-- Lets the names of a label line wait, up to the first that is no label. -/
def addLabels (buffer : Buffer) : List (List Char) → Except ReadError Buffer
  | [] => .ok buffer
  | name :: rest => do
    let label ← Label.ofString (String.ofList name)
    addLabels ⟨buffer.raw, buffer.pending ++ [label]⟩ rest

/-- Adds an operation, with the labels that wait before it. -/
def addOp (buffer : Buffer) (op : Op) : Buffer :=
  ⟨buffer.raw ++ buffer.pending.map Entry.mark ++ [Entry.ofOp op], []⟩

/-- Adds what stands on a trimmed line. -/
def addLine (buffer : Buffer) (line : List Char) : Except ReadError Buffer :=
  let code := withoutComment line
  if code.isEmpty then .ok buffer
  else if code.getLast? = some ':' then buffer.addLabels (Line.labelNames code)
  else do return buffer.addOp (← Op.ofChars code)

/-- The loop over the lines.  Blank lines and comments are passed over, and so are the lines of a
metadata block. -/
def read (buffer : Buffer) : List (List Char) → Except ReadError Buffer
  | [] => .ok buffer
  | line :: rest =>
    if (trim line).isEmpty || ['-', '-'].isPrefixOf (trim line) then buffer.read rest
    else if opensMetadata (trim line) then
      match _ : skipBlock (trim line) rest with
      | none => .error (.unterminatedMetadata (String.ofList (trim line)))
      | some after => buffer.read after
    else do
      let next ← buffer.addLine (trim line)
      next.read rest
termination_by lines => lines.length
decreasing_by
  · exact Nat.lt_succ_self _
  · exact Nat.lt_succ_of_le (length_skipBlock_le ‹_›)
  · exact Nat.lt_succ_self _

/-! ## What a line adds -/

/-- All that a buffer holds, in the order of the text. -/
def contents (buffer : Buffer) : List Entry :=
  buffer.raw ++ buffer.pending.map Entry.mark

theorem contents_addOp (buffer : Buffer) (op : Op) :
    (buffer.addOp op).contents = buffer.contents ++ [Entry.ofOp op] := by
  simp [contents, addOp]

theorem contents_addLabels (buffer : Buffer) (names : List (List Char)) :
    (buffer.addLabels names).map contents = (Line.marks names).map (buffer.contents ++ ·) := by
  induction names generalizing buffer with
  | nil => simp [addLabels, Line.marks, Except.map]
  | cons name rest ih =>
    rw [addLabels, Line.marks]
    cases Label.ofString (String.ofList name) with
    | error cause => rfl
    | ok label =>
      have hheld : contents ⟨buffer.raw, buffer.pending ++ [label]⟩ =
          buffer.contents ++ [Entry.mark label] := by simp [contents]
      show (addLabels _ rest).map contents = _
      rw [ih, hheld]
      cases Line.marks rest <;> simp [Except.map, bind, Except.bind, pure, Except.pure]

theorem withoutComment_eq {line : List Char} (h : Tight line) :
    withoutComment line = trim (beforeComment line) := by
  unfold withoutComment
  split
  · rfl
  · rename_i hcomment
    rw [beforeComment_of_hasComment (Bool.eq_false_iff.2 hcomment), trim_of_tight h]

/-- **A line adds its own entries to what is held.** -/
theorem contents_addLine (buffer : Buffer) {line : List Char} (htight : Tight line)
    (hmetadata : opensMetadata line = false) :
    (buffer.addLine line).map contents =
      (Line.ofTrimmed line).entries.map (buffer.contents ++ ·) := by
  rw [addLine, withoutComment_eq htight, ofTrimmed_eq_ofCode hmetadata, Line.ofCode]
  split
  · simp [Line.entries, Except.map]
  · split
    · exact contents_addLabels buffer _
    · rw [Line.entries]
      cases Op.ofChars (trim (beforeComment line)) with
      | error cause => rfl
      | ok op => exact congrArg Except.ok (contents_addOp buffer op)

/-! ## What all lines add -/

theorem openBlock_ofCode (code : List Char) : (Line.ofCode code).openBlock = none := by
  unfold Line.ofCode
  split
  · rfl
  · split <;> rfl

/-- **Lines add their entries to what is held.** -/
theorem contents_read (buffer : Buffer) (lines : List (List Char)) :
    (buffer.read lines).map contents = (readLines none lines).map (buffer.contents ++ ·) := by
  -- by the rounds of the loop; what is held before the rest of the lines stays arbitrary
  fun_induction read buffer lines with
  | case1 buffer => simp [readLines, Except.map]
  | case2 buffer line rest hskip ih =>
    have hline := (filler_of_skip hskip).readsTo rest
    rw [List.singleton_append] at hline
    rw [ih, hline]
    cases readLines none rest <;> rfl
  | case3 buffer line rest hskip hopens hblock =>
    rw [readLines_metadata hopens, hblock]
    rfl
  | case4 buffer line rest hskip hopens after hblock ih =>
    rw [readLines_metadata hopens, hblock]
    exact ih
  | case5 buffer line rest hskip hopens ih =>
    have hmetadata : opensMetadata (trim line) = false := Bool.eq_false_iff.2 hopens
    have hopen : (Line.ofChars line).openBlock = none := by
      rw [Line.ofChars, ofTrimmed_eq_ofCode hmetadata, openBlock_ofCode]
    have hadded := buffer.contents_addLine (tight_trim line) hmetadata
    rw [readLines, hopen, Line.ofChars]
    rcases map_eq_map hadded with ⟨cause, hadd, hentries⟩ | ⟨next, here, hadd, hentries, hheld⟩
    · -- the line is at fault on both sides
      rw [hadd, hentries]
      rfl
    · rw [hadd, hentries]
      show (next.read rest).map contents = _
      rw [ih next, hheld]
      cases readLines none rest <;> simp [Except.map, bind, Except.bind, pure, Except.pure]

/-- **From an empty buffer the entries of the listing come.** -/
theorem contents_read_eq_entries (text : String) :
    (read ⟨[], []⟩ (lines text.toList)).map contents = entries text := by
  rw [contents_read, entries]
  cases readLines none (lines text.toList) <;> rfl

end Buffer

end Listing

end Clerk
