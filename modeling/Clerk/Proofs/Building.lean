import Clerk.Builder
import Clerk.Proofs.ListingText

/-!
# Builders and listings

A program can be read from a listing or put together by a builder.  A listing has a label on a line
of its own, a builder may attach it to an operation; in a listing each name is checked where it
stands, in a builder all of them before the program is made.  The two come to the same.

* `Entry.spelled` — an entry as a listing spells it, its label as a mark;
* `Program.ofEntries_spelled` — this makes no difference to the program;
* `Listing.entryLines`, `Listing.entries_of_lines` — the lines that spell entries, and how they are
  read;
* `Listing.entries_spelling_iff` — entries come back from their lines exactly when their names are
  labels;
* `Label.isValid_iff_comesBack` — the same for a single name, as a mark and as a target;
* `Builder.agrees_with_listings` — builders and listings make the same programs.
-/

set_option autoImplicit false

namespace Clerk

/-! ## Labels as marks -/

/-- An entry as a listing spells it: a mark for the label, then the operation. -/
def Entry.spelled (entry : Entry) : List Entry :=
  entry.label.toList.map Entry.mark ++ entry.op.toList.map Entry.ofOp

/-- Every name of an entry stands in one of the entries that it is spelled as. -/
theorem Entry.exists_mem_spelled {entry : Entry} {name : String} (h : name ∈ entry.names) :
    ∃ part ∈ entry.spelled, name ∈ part.names := by
  rcases List.mem_append.1 h with hlabel | htarget
  · refine ⟨Entry.mark name, ?_, by simp [Entry.mark, Entry.names]⟩
    exact List.mem_append_left _ (List.mem_map_of_mem hlabel)
  · rw [Option.mem_toList, Option.bind_eq_some_iff] at htarget
    obtain ⟨op, hop, htarget⟩ := htarget
    refine ⟨Entry.ofOp op, ?_, by simp [Entry.ofOp, Entry.names, htarget]⟩
    refine List.mem_append_right _ (List.mem_map_of_mem ?_)
    rw [hop]
    simp

namespace Fold

theorem settle_spelled {entries : List Entry} (h : ∀ entry ∈ entries, entry.comment = none)
    (carried : Option String) :
    settle carried (entries.flatMap Entry.spelled) = settle carried entries := by
  induction entries generalizing carried with
  | nil => rfl
  | cons entry rest ih =>
    have hrest := ih fun other hmem => h other (List.mem_cons_of_mem _ hmem)
    obtain ⟨op, label, comment⟩ := entry
    obtain rfl : comment = none := h ⟨op, label, comment⟩ (by simp)
    rw [List.flatMap_cons]
    cases op <;> cases label <;>
      simp [Entry.spelled, settle, Entry.mark, Entry.ofOp, Entry.handOn, hrest]

theorem aliases_spelled (entries : List Entry) (carried : Option String) :
    aliases carried (entries.flatMap Entry.spelled) = aliases carried entries := by
  induction entries generalizing carried with
  | nil => rfl
  | cons entry rest ih =>
    obtain ⟨op, label, comment⟩ := entry
    rw [List.flatMap_cons]
    -- the label handed on gives way to the mark as it did to the label of the entry; the mark gives
    -- way to nothing, since the operation below it has no label left
    cases op <;> cases label <;> cases carried <;>
      simp [Entry.spelled, aliases, Entry.mark, Entry.ofOp, Entry.handOn, ih]

theorem bindings_spelled (entries : List Entry) (position : Nat) :
    bindings position (entries.flatMap Entry.spelled) = bindings position entries := by
  induction entries generalizing position with
  | nil => rfl
  | cons entry rest ih =>
    obtain ⟨op, label, comment⟩ := entry
    rw [List.flatMap_cons]
    cases op <;> cases label <;>
      simp [Entry.spelled, bindings, Entry.mark, Entry.ofOp, Entry.isMark, ih]

end Fold

/-- **Labels may be attached or stand on marks of their own.** -/
theorem Program.ofEntries_spelled {entries : List Entry}
    (h : ∀ entry ∈ entries, entry.comment = none) :
    Program.ofEntries (entries.flatMap Entry.spelled) = Program.ofEntries entries := by
  unfold Program.ofEntries Fold.instructions
  rw [Fold.bindings_spelled, Fold.settle_spelled h, Fold.aliases_spelled]

namespace Listing

open Text

/-! ## Lines that spell entries -/

/-- The lines that spell an entry: one for its label and one for its operation. -/
def entryLines (entry : Entry) : List String :=
  entry.label.toList.map labelLine ++ entry.op.toList.map Op.text

theorem readsTo_entry {entry : Entry} (h : entry.Named) :
    ReadsTo ((entryLines entry).map String.toList) entry.spelled := by
  unfold entryLines Entry.spelled
  rw [List.map_append]
  refine ReadsTo.append ?_ ?_
  · cases hlabel : entry.label with
    | none => exact ReadsTo.nil
    | some label => exact readsTo_label (h.label hlabel)
  · cases hop : entry.op with
    | none => exact ReadsTo.nil
    | some op => exact readsTo_of_trim (h.writable hop) (trim_text (h.writable hop))

theorem line_entry {entry : Entry} (h : entry.Named) {line : String}
    (hmem : line ∈ entryLines entry) : line.toList ≠ [] ∧ '\n' ∉ line.toList := by
  simp only [entryLines, List.mem_append, List.mem_map, Option.mem_toList] at hmem
  rcases hmem with ⟨label, hlabel, rfl⟩ | ⟨op, hop, rfl⟩
  · exact Program.line_label (h.label hlabel)
  · obtain ⟨-, -, -, hne, -, hnewline⟩ := code_text (h.writable hop)
    exact ⟨hne, hnewline⟩

/-- **A text with the lines that spell entries is read as these entries**, each label on a mark. -/
theorem entries_of_lines {entries : List Entry} (h : ∀ entry ∈ entries, entry.Named) {text : String}
    (hlines : lines text.toList = (entries.flatMap entryLines).map String.toList) :
    Listing.entries text = .ok (entries.flatMap Entry.spelled) := by
  rw [Listing.entries, hlines, List.map_flatMap]
  exact (ReadsTo.flatMap fun entry hmem => readsTo_entry (h entry hmem)).entries

/-- The lines that spell entries, with a newline between two. -/
def spelling (entries : List Entry) : String :=
  String.intercalate "\n" (entries.flatMap entryLines)

/-- The lines that spell entries, with a newline after each. -/
def closedSpelling (entries : List Entry) : String :=
  String.join ((entries.flatMap entryLines).map (· ++ "\n"))

theorem line_spelling {entries : List Entry} (h : ∀ entry ∈ entries, entry.Named)
    {line : List Char} (hmem : line ∈ (entries.flatMap entryLines).map String.toList) :
    line ≠ [] ∧ '\n' ∉ line := by
  obtain ⟨text, htext, rfl⟩ := List.mem_map.1 hmem
  obtain ⟨entry, hentry, htext⟩ := List.mem_flatMap.1 htext
  exact line_entry (h entry hentry) htext

theorem lines_spelling {entries : List Entry} (h : ∀ entry ∈ entries, entry.Named) :
    lines (spelling entries).toList = (entries.flatMap entryLines).map String.toList := by
  rw [spelling, String.toList_intercalate]
  refine lines_intercalate (fun line hmem => (line_spelling h hmem).2) ?_
  intro hmem
  exact (line_spelling h hmem).1 rfl

/-- **Entries come back from their lines exactly when their names are labels.** -/
theorem entries_spelling_iff (entries : List Entry) :
    Listing.entries (spelling entries) = .ok (entries.flatMap Entry.spelled) ↔
      ∀ entry ∈ entries, entry.Named := by
  constructor
  · intro h entry hmem name hname
    obtain ⟨part, hpart, hname⟩ := Entry.exists_mem_spelled hname
    exact (read_of_readLines h part (List.mem_flatMap.2 ⟨entry, hmem, hpart⟩)).named name hname
  · intro h
    exact entries_of_lines h (lines_spelling h)

theorem lines_closedSpelling {entries : List Entry} (h : ∀ entry ∈ entries, entry.Named) :
    lines (closedSpelling entries).toList = (entries.flatMap entryLines).map String.toList := by
  refine lines_join fun line hmem => ?_
  exact (line_spelling h (List.mem_map_of_mem hmem)).2

end Listing

open Listing

/-- **A name is a label exactly when it comes back from a listing**, on a label line before an
operation and as the target of a jump. -/
theorem Label.isValid_iff_comesBack (name : String) :
    (Label.isValid name = true ↔
      Listing.entries (name ++ ":\nINBOX") = .ok [Entry.mark name, Entry.ofOp .inbox]) ∧
    (Label.isValid name = true ↔
      Listing.entries ("JUMP\t" ++ name) = .ok [Entry.ofOp (.jump none name)]) := by
  have hmark : spelling [Entry.mark name, Entry.ofOp .inbox] = name ++ ":\nINBOX" := by
    rw [← String.toList_inj, spelling, String.toList_intercalate]
    simp [entryLines, Entry.mark, Entry.ofOp, labelLine, Op.text, Op.operand?, Op.mnemonic,
      Op.keyword, Keyword.mnemonic]
  have hjump : spelling [Entry.ofOp (.jump none name)] = "JUMP\t" ++ name := by
    rw [← String.toList_inj, spelling, String.toList_intercalate]
    simp [entryLines, Entry.ofOp, Op.text, Op.operand?, Op.mnemonic, Op.keyword, Keyword.mnemonic]
  constructor
  · rw [← hmark]
    calc Label.isValid name = true
      _ ↔ ∀ entry ∈ [Entry.mark name, Entry.ofOp .inbox], entry.Named := by
        simp [Entry.Named, Entry.names, Entry.mark, Entry.ofOp, Op.target?]
      _ ↔ _ := (entries_spelling_iff _).symm
  · rw [← hjump]
    calc Label.isValid name = true
      _ ↔ ∀ entry ∈ [Entry.ofOp (.jump none name)], entry.Named := by
        simp [Entry.Named, Entry.names, Entry.ofOp, Op.target?]
      _ ↔ _ := (entries_spelling_iff _).symm

/-! ## Builders -/

namespace Builder

/-- A builder to which entries were added in order. -/
def ofEntries (entries : List Entry) : Builder :=
  entries.foldl push ⟨#[]⟩

theorem entries_ofEntries (entries : List Entry) :
    (ofEntries entries).entries.toList = entries := by
  have hpush : ∀ builder : Builder,
      (entries.foldl push builder).entries.toList = builder.entries.toList ++ entries := by
    induction entries with
    | nil => simp
    | cons entry rest ih =>
      intro builder
      rw [List.foldl_cons, ih]
      simp [push]
  exact hpush ⟨#[]⟩

/-- A builder whose names are all labels makes the program of its entries. -/
theorem build_of_named {builder : Builder} (h : ∀ entry ∈ builder.entries.toList, entry.Named) :
    builder.build = Program.ofEntries builder.entries.toList := by
  have hnone : builder.badName? = none := by
    refine List.find?_eq_none.2 fun name hmem => ?_
    obtain ⟨entry, hentry, hname⟩ := List.mem_flatMap.1 hmem
    simp [h entry hentry name hname]
  rw [build, hnone]

/-- A builder that makes a program has labels for names. -/
theorem named_of_build {builder : Builder} {program : Program} (h : builder.build = .ok program) :
    Program.ofEntries builder.entries.toList = .ok program ∧
      ∀ entry ∈ builder.entries.toList, entry.Named := by
  unfold build at h
  split at h
  · cases h
  · rename_i hnone
    refine ⟨h, fun entry hmem name hname => ?_⟩
    have hvalid := List.find?_eq_none.1 hnone name (List.mem_flatMap.2 ⟨entry, hmem, hname⟩)
    simpa using hvalid

/-- **Builders and listings make the same programs.**  Adding the entries of a listing to a builder
gives the program of the listing, or its error.  Writing out the entries of a builder line by line
gives a listing of the same program, with the same labels in the same order. -/
theorem agrees_with_listings :
    (∀ text entries, Listing.entries text = .ok entries →
      (ofEntries entries).build = Program.ofListing text) ∧
    ∀ entries program, (∀ entry ∈ entries, entry.comment = none) →
      (ofEntries entries).build = .ok program →
        Program.ofListing (spelling entries) = .ok program ∧
          Program.ofListing (closedSpelling entries) = .ok program := by
  refine ⟨fun text entries hread => ?_, fun entries program hcomment hbuild => ?_⟩
  · have hnamed : ∀ entry ∈ (ofEntries entries).entries.toList, entry.Named := by
      rw [entries_ofEntries]
      exact fun entry hmem => (read_of_readLines hread entry hmem).named
    rw [build_of_named hnamed, entries_ofEntries, Program.ofListing, hread]
  · obtain ⟨hprogram, hnamed⟩ := named_of_build hbuild
    rw [entries_ofEntries] at hprogram hnamed
    rw [← Program.ofEntries_spelled hcomment] at hprogram
    rw [Program.ofListing, Program.ofListing, entries_of_lines hnamed (lines_spelling hnamed),
      entries_of_lines hnamed (lines_closedSpelling hnamed)]
    exact ⟨hprogram, hprogram⟩

/-- Entries with a labelled operation below a mark, a mark without a label and labels of the end. -/
def mixed : List Entry :=
  [Entry.mark "a", ⟨some .inbox, some "b", none⟩, Entry.mark "c", ⟨none, none, none⟩,
    Entry.ofOp (.jump (some .zero) "d"), Entry.ofOp (.jump none "a"), Entry.mark "d",
    Entry.mark "e"]

theorem agrees_with_listings_mixed :
    (∃ program, (ofEntries mixed).build = .ok program ∧
      Program.ofListing (spelling mixed) = .ok program ∧
      Program.ofListing (closedSpelling mixed) = .ok program) ∧
    ∃ entries, Listing.entries "a:\nINBOX\na:" = .ok entries ∧
      (ofEntries entries).build = Program.ofListing "a:\nINBOX\na:" := by
  have hbuild : (ofEntries mixed).build = .ok
      ⟨#[⟨.inbox, some "b", none⟩, ⟨.jump (some .zero) "e", some "c", none⟩,
        ⟨.jump none "b", none, none⟩], [("a", 0), ("b", 0), ("c", 1), ("d", 3), ("e", 3)]⟩ := by
    decide +kernel
  have hread : Listing.entries "a:\nINBOX\na:" =
      .ok [Entry.mark "a", Entry.ofOp .inbox, Entry.mark "a"] := by
    decide +kernel
  exact ⟨⟨_, hbuild, agrees_with_listings.2 _ _ (by decide) hbuild⟩,
    ⟨_, hread, agrees_with_listings.1 _ _ hread⟩⟩

end Builder

end Clerk
