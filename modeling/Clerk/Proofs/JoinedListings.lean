import Clerk.Listing.Reader
import Clerk.Proofs.Text

/-!
# Listings one below the other

Reading goes line by line and hands on nothing but the metadata block that is open.  So a text put
below another is read as if it stood alone, unless the first text leaves a block open, and the first
line at fault decides the error.

* `Listing.scan` — what lines give by themselves, and the block they leave open;
* `Listing.readLines_append` — reading goes on from there;
* `Listing.entries_join` — two texts with a newline between them have the lines of both;
* `Listing.entries_joined` — how a text is read below another.
-/

set_option autoImplicit false

namespace Clerk

namespace Listing

open Text

/-- What lines give by themselves, with the metadata block that they leave open. -/
def scan : Option (List Char) → List (List Char) →
    Except ReadError (List Entry × Option (List Char))
  | block, [] => .ok ([], block)
  | some opening, line :: rest =>
    scan (if closesMetadata (Text.trim line) then none else some opening) rest
  | none, line :: rest => do
    let here ← (Line.ofChars line).entries
    let (later, block) ← scan (Line.ofChars line).openBlock rest
    return (here ++ later, block)

/-- **Reading goes on from where a part of the lines leaves it.** -/
theorem readLines_append (block : Option (List Char)) (first second : List (List Char)) :
    readLines block (first ++ second) = (do
      let (earlier, left) ← scan block first
      (readLines left second).map (earlier ++ ·)) := by
  induction first generalizing block with
  | nil =>
    cases hsecond : readLines block second <;> simp [scan, hsecond, bind, Except.bind, Except.map]
  | cons line rest ih =>
    cases block with
    | some opening =>
      -- a line in a block is skipped on both sides
      exact ih _
    | none =>
      rw [List.cons_append, readLines, scan]
      cases (Line.ofChars line).entries with
      | error cause => rfl
      | ok here =>
        simp only [bind, Except.bind, ih]
        cases scan (Line.ofChars line).openBlock rest with
        | error cause => rfl
        | ok result =>
          obtain ⟨later, left⟩ := result
          cases hsecond : readLines left second <;>
            simp [Except.map, pure, Except.pure, hsecond]

/-- At the end of the text a block must not be open. -/
theorem readLines_eq_scan (block : Option (List Char)) (lines : List (List Char)) :
    readLines block lines =
      match scan block lines with
      | .error cause => .error cause
      | .ok (entries, none) => .ok entries
      | .ok (_, some opening) => .error (.unterminatedMetadata (String.ofList opening)) := by
  have happend := readLines_append block lines []
  rw [List.append_nil] at happend
  rw [happend]
  cases scan block lines with
  | error cause => rfl
  | ok result =>
    obtain ⟨entries, left⟩ := result
    cases left with
    | none => simp [readLines, bind, Except.bind, Except.map]
    | some opening => rfl

/-- An empty line changes nothing, in a metadata block or outside. -/
theorem readLines_empty (block : Option (List Char)) (rest : List (List Char)) :
    readLines block ([] :: rest) = readLines block rest := by
  cases block with
  | some opening => rfl
  | none =>
    have hline : Line.ofChars [] = .blank := rfl
    rw [readLines, hline]
    simp only [Line.entries, Line.openBlock, bind, Except.bind, pure, Except.pure]
    cases readLines none rest <;> rfl

/-- **Two texts with a newline between them have the lines of both.** -/
theorem entries_join (first second : String) :
    entries (first ++ "\n" ++ second) =
      readLines none (lines first.toList ++ lines second.toList) := by
  have htext : (first ++ "\n" ++ second).toList = first.toList ++ '\n' :: second.toList := by
    simp [String.toList_append]
  rw [entries, htext, lines_append_newline]
  rcases splitOn_newline first.toList with hpieces | hpieces
  · rw [hpieces]
  · rw [hpieces, List.append_assoc, readLines_append, readLines_append]
    simp only [List.singleton_append, readLines_empty]

/-- A block that no line closes runs to the end. -/
theorem readLines_of_open {opening : List Char} {lines : List (List Char)}
    (h : ∀ line ∈ lines, (trim line).getLast? ≠ some ';') :
    readLines (some opening) lines = .error (.unterminatedMetadata (String.ofList opening)) := by
  induction lines with
  | nil => rfl
  | cons line rest ih =>
    have hopen : closesMetadata (trim line) = false := by
      simpa [closesMetadata] using h line (by simp)
    rw [readLines, hopen]
    exact ih fun other hmem => h other (List.mem_cons_of_mem _ hmem)

/-- **A text below another is read by itself, and the first error is the one reported.**  When the
first text can be read its entries stand before those of the second; when it cannot, the second
makes no difference.  A metadata block left open is the exception: it goes on in the second text,
and stays open if no line there closes it. -/
theorem entries_joined (first second : String) :
    (∀ earlier, entries first = .ok earlier →
      entries (first ++ "\n" ++ second) = (entries second).map (earlier ++ ·)) ∧
    (∀ cause, entries first = .error cause → (∀ opening, cause ≠ .unterminatedMetadata opening) →
      entries (first ++ "\n" ++ second) = .error cause) ∧
    ∀ opening, entries first = .error (.unterminatedMetadata opening) →
      (∀ line ∈ lines second.toList, (trim line).getLast? ≠ some ';') →
        entries (first ++ "\n" ++ second) = .error (.unterminatedMetadata opening) := by
  rw [entries_join, readLines_append]
  simp only [entries]
  rw [readLines_eq_scan none (lines first.toList)]
  cases scan none (lines first.toList) with
  | error failure =>
    -- a line of the first text is at fault
    refine ⟨?_, ?_, ?_⟩
    · rintro earlier ⟨⟩
    · rintro cause ⟨⟩ -
      rfl
    · rintro opening ⟨⟩ -
      rfl
  | ok result =>
    obtain ⟨entries, left⟩ := result
    cases left with
    | none =>
      -- the first text closes all its blocks
      refine ⟨?_, ?_, ?_⟩
      · rintro earlier ⟨⟩
        rfl
      · rintro cause ⟨⟩
      · rintro opening ⟨⟩
    | some block =>
      -- the first text is at fault only because it ends
      refine ⟨?_, ?_, ?_⟩
      · rintro earlier ⟨⟩
      · rintro cause ⟨⟩ hother
        exact absurd rfl (hother _)
      · rintro opening ⟨⟩ hlines
        simp only [bind, Except.bind, readLines_of_open hlines]
        rfl

theorem entries_joined_seams :
    entries "DEFINE\nx;\na:\r" = .ok [Entry.mark "a"] ∧
      entries ("DEFINE\nx;\na:\r" ++ "\n" ++ "INBOX") =
        (entries "INBOX").map ([Entry.mark "a"] ++ ·) ∧
    entries "INBOX\nb b:" = .error (.badLabel "b b") ∧
      entries ("INBOX\nb b:" ++ "\n" ++ "OUTBOX 1") = .error (.badLabel "b b") ∧
    entries "define x\n" = .error (.unterminatedMetadata "define x") ∧
      entries ("define x\n" ++ "\n" ++ "y") = .error (.unterminatedMetadata "define x") := by
  have hread : entries "DEFINE\nx;\na:\r" = .ok [Entry.mark "a"] := by decide +kernel
  have hfault : entries "INBOX\nb b:" = .error (.badLabel "b b") := by decide +kernel
  have hopen : entries "define x\n" = .error (.unterminatedMetadata "define x") := by
    decide +kernel
  have hlines : ∀ line ∈ lines "y".toList, (trim line).getLast? ≠ some ';' := by decide +kernel
  exact ⟨hread, (entries_joined _ _).1 _ hread,
    hfault, (entries_joined _ _).2.1 _ hfault (by rintro opening ⟨⟩),
    hopen, (entries_joined _ _).2.2 _ hopen hlines⟩

end Listing

end Clerk
