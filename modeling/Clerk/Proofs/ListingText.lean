import Clerk.Listing.Writer
import Clerk.Proofs.Spellings

/-!
# Reading back what was written

Every line of a canonical listing is read as what it was written for: comments and the header as
nothing, a label line as a mark, the line of an operation as that operation.

* `Listing.ReadsTo` — lines that are read as given entries, whatever lines follow;
* `Program.relisted` — the entries that the listing of a program spells out;
* `Program.entries_listing` — reading the listing gives these entries.
-/

set_option autoImplicit false

namespace Clerk

open Text

namespace Listing

/-! ## Lines one after the other -/

/-- The lines are read as the entries, and reading goes on with what follows. -/
def ReadsTo (lines : List (List Char)) (entries : List Entry) : Prop :=
  ∀ rest, readLines none (lines ++ rest) = (readLines none rest).map (entries ++ ·)

theorem ReadsTo.nil : ReadsTo [] [] := by
  intro rest
  rw [List.nil_append]
  cases readLines none rest <;> rfl

theorem ReadsTo.append {lines lines' : List (List Char)} {entries entries' : List Entry}
    (h : ReadsTo lines entries) (h' : ReadsTo lines' entries') :
    ReadsTo (lines ++ lines') (entries ++ entries') := by
  intro rest
  rw [List.append_assoc, h, h']
  cases readLines none rest with
  | error cause => rfl
  | ok later => simp [Except.map]

theorem ReadsTo.flatMap {α : Type} {items : List α} {lines : α → List (List Char)}
    {entries : α → List Entry} (h : ∀ item ∈ items, ReadsTo (lines item) (entries item)) :
    ReadsTo (items.flatMap lines) (items.flatMap entries) := by
  induction items with
  | nil => exact ReadsTo.nil
  | cons item rest ih =>
    rw [List.flatMap_cons, List.flatMap_cons]
    exact (h item (by simp)).append (ih fun other hmem => h other (List.mem_cons_of_mem _ hmem))

theorem ReadsTo.map {α : Type} {items : List α} {line : α → List Char} {entry : α → Entry}
    (h : ∀ item ∈ items, ReadsTo [line item] [entry item]) :
    ReadsTo (items.map line) (items.map entry) := by
  rw [List.map_eq_flatMap, List.map_eq_flatMap]
  exact ReadsTo.flatMap h

theorem ReadsTo.blank {lines : List (List Char)} (h : ∀ line ∈ lines, ReadsTo [line] []) :
    ReadsTo lines [] := by
  induction lines with
  | nil => exact ReadsTo.nil
  | cons line rest ih =>
    exact (h line (by simp)).append (ih fun other hmem => h other (List.mem_cons_of_mem _ hmem))

theorem ReadsTo.entries {lines : List (List Char)} {entries : List Entry}
    (h : ReadsTo lines entries) : readLines none lines = .ok entries := by
  have := h []
  rw [List.append_nil] at this
  rw [this]
  simp [readLines, Except.map]

theorem readsTo_line {line : List Char} {entries : List Entry}
    (hentries : (Line.ofChars line).entries = .ok entries)
    (hopen : (Line.ofChars line).openBlock = none) : ReadsTo [line] entries := by
  intro rest
  rw [List.singleton_append, readLines, hentries, hopen]
  cases readLines none rest <;> rfl

/-! ## One line -/

/-- A line in which no metadata block opens and no comment starts is its own code. -/
theorem ofChars_eq_ofCode {line code : List Char} (htrim : trim line = code) (htight : Tight code)
    (hmetadata : opensMetadata code = false) (hcomment : hasComment code = false) :
    Line.ofChars line = Line.ofCode code := by
  rw [Line.ofChars, htrim, Line.ofTrimmed, hmetadata, beforeComment_of_hasComment hcomment,
    trim_of_tight htight]
  rfl

theorem ofTrimmed_comment (text : List Char) : Line.ofTrimmed ('-' :: '-' :: text) = .blank := by
  rw [Line.ofTrimmed, opensMetadata_of_head (by decide)]
  rfl

theorem readsTo_comment (text : List Char) : ReadsTo ['-' :: '-' :: text] [] := by
  have hline : Line.ofChars ('-' :: '-' :: text) = .blank := by
    have hdash : isBlank '-' = false := by decide
    rw [Line.ofChars, trim_cons_of_not_blank hdash, trimRight_cons hdash, ofTrimmed_comment]
  exact readsTo_line (by rw [hline]; rfl) (by rw [hline]; rfl)

/-- A label with its colon opens no metadata block: the colon is no letter of the opening word. -/
theorem opensMetadata_append_colon {name : List Char} (h : opensMetadata name = false) :
    opensMetadata (name ++ [':']) = false := by
  rw [opensMetadata_append_cons (by decide), h]

theorem readsTo_label {name : String} (h : Label.isValid name = true) :
    ReadsTo [(labelLine name).toList] [Entry.mark name] := by
  have hplain := Label.plain_of_isValid h
  have htext : (labelLine name).toList = name.toList ++ [':'] := by simp [labelLine]
  have htight : Tight (name.toList ++ [':']) := by
    refine tight_of_forall fun c hc => ?_
    rcases List.mem_append.1 hc with hc | hc
    · exact (hplain.chars c hc).1
    · obtain rfl : c = ':' := by simpa using hc
      decide
  have hcolon : ':' ∉ name.toList := fun hmem => (hplain.chars _ hmem).2 rfl
  have hline : Line.ofChars (labelLine name).toList = .labels [name.toList] := by
    rw [htext, ofChars_eq_ofCode (trim_of_tight htight) htight
      (opensMetadata_append_colon (Label.opensMetadata_of_isValid h))
      (hasComment_append (by decide) hplain.comment rfl)]
    have hnil : trim [] = [] := rfl
    rw [Line.ofCode, if_neg (by simp), if_pos (by simp), Line.labelNames,
      List.splitOn_append_cons_self_of_not_mem hcolon]
    simp [List.splitOn_eq_splitOnP, trim_of_tight hplain.tight, hplain.ne_nil, hnil]
  refine readsTo_line ?_ (by rw [hline]; rfl)
  rw [hline]
  simp only [Line.entries, Line.marks, String.ofList_toList, Label.ofString_of_isValid h]
  rfl

/-- The spelling of an operation is code: it has no blank at its ends, opens no metadata block,
starts no comment and does not end in a colon. -/
theorem code_text {op : Op} (h : op.Writable) :
    Tight op.text.toList ∧ opensMetadata op.text.toList = false ∧
      hasComment op.text.toList = false ∧ op.text.toList ≠ [] ∧
        op.text.toList.getLast? ≠ some ':' ∧ '\n' ∉ op.text.toList := by
  have hword : Plain op.mnemonic.toList := op.keyword.plain_mnemonic
  obtain ⟨c, tail, hhead, hletter⟩ : ∃ c rest, op.mnemonic.toList = c :: rest ∧ c.toLower ≠ 'd' :=
    op.keyword.head_mnemonic
  have hlast : ∀ {s : List Char}, Plain s → s.getLast? ≠ some ':' := fun hs heq =>
    (hs.chars _ (List.mem_of_getLast? heq)).2 rfl
  rcases op.toList_text h with ⟨-, htext⟩ | ⟨operand, -, hplain, htext⟩
  · rw [htext]
    refine ⟨hword.tight, ?_, hword.comment, hword.ne_nil, hlast hword, hword.newline⟩
    rw [hhead]
    exact opensMetadata_of_head hletter tail
  · rw [htext]
    refine ⟨tight_append hword.ne_nil hplain.ne_nil hword.tight hplain.tight '\t', ?_,
      hasComment_append (by decide) hword.comment hplain.comment, by simp, ?_, ?_⟩
    · rw [hhead]
      exact opensMetadata_of_head hletter _
    · rw [List.getLast?_append_of_ne_nil _ (by simp), List.getLast?_cons_of_ne_nil hplain.ne_nil]
      exact hlast hplain
    · simp only [List.mem_append, List.mem_cons, not_or]
      exact ⟨hword.newline, by decide, hplain.newline⟩

/-- A line that is the spelling of an operation once it is trimmed is read as that operation. -/
theorem readsTo_of_trim {op : Op} (h : op.Writable) {line : List Char}
    (htrim : trim line = op.text.toList) : ReadsTo [line] [Entry.ofOp op] := by
  obtain ⟨htight, hmetadata, hcomment, hne, hlast, -⟩ := code_text h
  have hline : Line.ofChars line = .code op.text.toList := by
    rw [ofChars_eq_ofCode htrim htight hmetadata hcomment, Line.ofCode,
      if_neg (by simpa using hne), if_neg hlast]
  refine readsTo_line ?_ (by rw [hline]; rfl)
  rw [hline]
  simp only [Line.entries, op.ofChars_text h]
  rfl

theorem trim_text {op : Op} (h : op.Writable) : trim op.text.toList = op.text.toList :=
  trim_of_tight (code_text h).1

theorem readsTo_op {op : Op} (h : op.Writable) :
    ReadsTo [("\t" ++ op.text).toList] [Entry.ofOp op] := by
  refine readsTo_of_trim h ?_
  have htext : ("\t" ++ op.text).toList = '\t' :: op.text.toList := by
    simp [String.toList_append]
  rw [htext, trim_cons_of_blank isBlank_tab, trim_text h]

end Listing

/-! ## What can be read can be written -/

/-- All names in an entry are labels. -/
def Entry.Named (entry : Entry) : Prop :=
  ∀ name ∈ entry.names, Label.isValid name = true

theorem Entry.Named.label {entry : Entry} (h : entry.Named) {label : String}
    (hlabel : entry.label = some label) : Label.isValid label = true :=
  h label (by simp [Entry.names, hlabel])

theorem Entry.Named.writable {entry : Entry} (h : entry.Named) {op : Op}
    (hop : entry.op = some op) : op.Writable := by
  intro target htarget
  refine h target ?_
  simp [Entry.names, hop, htarget]

namespace Listing

/-- An entry as a listing gives it: its names are labels and it has no comment. -/
structure Read (entry : Entry) : Prop where
  named : entry.Named
  comment : entry.comment = none

theorem read_of_marks {names : List (List Char)} {entries : List Entry}
    (h : Line.marks names = .ok entries) : ∀ entry ∈ entries, Read entry := by
  induction names generalizing entries with
  | nil =>
    cases h
    simp
  | cons name rest ih =>
    obtain ⟨label, hlabel, h⟩ := bind_eq_ok h
    obtain ⟨later, hrest, h⟩ := bind_eq_ok h
    obtain ⟨rfl, hvalid⟩ := Label.ofString_eq_ok_iff.1 hlabel
    cases h
    intro entry hmem
    rcases List.mem_cons.1 hmem with rfl | hmem
    · refine ⟨fun other hother => ?_, rfl⟩
      obtain rfl : other = String.ofList name := by simpa [Entry.mark, Entry.names] using hother
      exact hvalid
    · exact ih hrest entry hmem

theorem read_of_line {line : Line} {entries : List Entry} (h : line.entries = .ok entries) :
    ∀ entry ∈ entries, Read entry := by
  cases line with
  | blank => cases h; simp
  | metadata opening => cases h; simp
  | labels names => exact read_of_marks h
  | code text =>
    obtain ⟨op, hop, h⟩ := bind_eq_ok h
    cases h
    intro entry hmem
    obtain rfl := List.mem_singleton.1 hmem
    refine ⟨fun name hname => (Op.ofChars_eq_ok_iff.1 hop).1 name ?_, rfl⟩
    simpa [Entry.ofOp, Entry.names] using hname

theorem read_of_readLines {block : Option (List Char)} {lines : List (List Char)}
    {entries : List Entry} (h : readLines block lines = .ok entries) :
    ∀ entry ∈ entries, Read entry := by
  induction lines generalizing block entries with
  | nil =>
    cases block <;> cases h
    simp
  | cons line rest ih =>
    cases block with
    | some opening => exact ih h
    | none =>
      obtain ⟨here, hhere, h⟩ := bind_eq_ok h
      obtain ⟨later, hlater, h⟩ := bind_eq_ok h
      cases h
      intro entry hmem
      rcases List.mem_append.1 hmem with hmem | hmem
      · exact read_of_line hhere entry hmem
      · exact ih hlater entry hmem

end Listing

open Listing

/-! ## Whole listings -/

/-- The entries of an instruction as it is written: a mark for the label, and the operation. -/
def Instruction.relisted (instruction : Instruction) : List Entry :=
  instruction.label.toList.map Entry.mark ++ [Entry.ofOp instruction.op]

namespace Program

/-- The entries that the listing of a program spells out. -/
def relisted (program : Program) : List Entry :=
  program.instructions.toList.flatMap Instruction.relisted ++ program.endLabels.map Entry.mark

/-- All names in a program are labels. -/
structure Writable (program : Program) : Prop where
  label : ∀ instruction ∈ program.instructions.toList, ∀ label,
    instruction.label = some label → Label.isValid label = true
  op : ∀ instruction ∈ program.instructions.toList, instruction.op.Writable
  endLabel : ∀ label ∈ program.endLabels, Label.isValid label = true

theorem readsTo_instruction {instruction : Instruction}
    (hlabel : ∀ label, instruction.label = some label → Label.isValid label = true)
    (hop : instruction.op.Writable) :
    ReadsTo ((instructionLines instruction).map String.toList) instruction.relisted := by
  rw [instructionLines, Instruction.relisted, List.map_append, List.map_append]
  refine ReadsTo.append ?_ (readsTo_op hop)
  rw [← List.append_nil (List.map Entry.mark _)]
  refine ReadsTo.append ?_ ?_
  · cases hsome : instruction.label with
    | none => exact ReadsTo.nil
    | some label => exact readsTo_label (hlabel label hsome)
  · cases instruction.comment with
    | none => exact ReadsTo.nil
    | some comment =>
      refine ReadsTo.blank fun line hmem => ?_
      simp only [Option.toList_some, List.flatMap_singleton, commentLines, List.map_map,
        List.mem_map, Function.comp_apply] at hmem
      obtain ⟨text, -, rfl⟩ := hmem
      rw [String.toList_append]
      exact readsTo_comment _

theorem readsTo_listingLines {program : Program} (h : program.Writable) :
    ReadsTo (program.listingLines.map String.toList) program.relisted := by
  have hheader : ReadsTo [header.toList] [] := readsTo_comment _
  have hbody : ReadsTo (program.instructions.toList.flatMap
      fun instruction => (instructionLines instruction).map String.toList)
        (program.instructions.toList.flatMap Instruction.relisted) :=
    ReadsTo.flatMap fun instruction hmem =>
      readsTo_instruction (h.label instruction hmem) (h.op instruction hmem)
  have hend : ReadsTo (program.endLabels.map fun label => (labelLine label).toList)
      (program.endLabels.map Entry.mark) :=
    ReadsTo.map fun label hmem => readsTo_label (h.endLabel label hmem)
  have hall := (hheader.append hbody).append hend
  rw [listingLines, relisted]
  simpa [List.map_flatMap, Function.comp_def] using hall

/-! Lines are joined by newlines, so none of them may hold one, and none is empty. -/

theorem line_label {label : String} (h : Label.isValid label = true) :
    (labelLine label).toList ≠ [] ∧ '\n' ∉ (labelLine label).toList := by
  have hplain := Label.plain_of_isValid h
  rw [labelLine, String.toList_append]
  refine ⟨by simp, ?_⟩
  rw [List.mem_append, not_or]
  exact ⟨hplain.newline, by decide⟩

theorem line_instruction {instruction : Instruction}
    (hlabel : ∀ label, instruction.label = some label → Label.isValid label = true)
    (hop : instruction.op.Writable) {line : String} (hmem : line ∈ instructionLines instruction) :
    line.toList ≠ [] ∧ '\n' ∉ line.toList := by
  simp only [instructionLines, List.mem_append, List.mem_map, Option.mem_toList,
    List.mem_flatMap, List.mem_singleton] at hmem
  rcases hmem with (⟨label, hsome, rfl⟩ | ⟨comment, -, hcomment⟩) | rfl
  · exact line_label (hlabel label hsome)
  · obtain ⟨text, htext, rfl⟩ := List.mem_map.1 hcomment
    rw [String.toList_append]
    refine ⟨by simp, ?_⟩
    rw [List.mem_append, not_or]
    exact ⟨by decide, by simpa using not_mem_of_mem_trimmedLines htext⟩
  · obtain ⟨-, -, -, -, -, hnewline⟩ := code_text hop
    rw [String.toList_append]
    refine ⟨by simp, ?_⟩
    rw [List.mem_append, not_or]
    exact ⟨by decide, hnewline⟩

theorem line_listing {program : Program} (h : program.Writable) {line : String}
    (hmem : line ∈ program.listingLines) : line.toList ≠ [] ∧ '\n' ∉ line.toList := by
  simp only [listingLines, List.mem_append, List.mem_cons, List.mem_flatMap,
    List.mem_map] at hmem
  rcases hmem with (rfl | ⟨instruction, hinstruction, hline⟩) | ⟨label, hlabel, rfl⟩
  · decide
  · exact line_instruction (h.label instruction hinstruction) (h.op instruction hinstruction) hline
  · exact line_label (h.endLabel label hlabel)

/-- **Reading the listing of a program gives the entries that it spells out.** -/
theorem entries_listing {program : Program} (h : program.Writable) :
    Listing.entries program.listing = .ok program.relisted := by
  have hlines : lines program.listing.toList = program.listingLines.map String.toList := by
    have hnewline : ∀ line ∈ program.listingLines.map String.toList, '\n' ∉ line := by
      intro line hmem
      obtain ⟨text, htext, rfl⟩ := List.mem_map.1 hmem
      exact (line_listing h htext).2
    have hempty : [] ∉ program.listingLines.map String.toList := by
      intro hmem
      obtain ⟨text, htext, hnil⟩ := List.mem_map.1 hmem
      exact (line_listing h htext).1 hnil
    rw [listing, String.toList_intercalate]
    exact lines_intercalate hnewline hempty
  rw [Listing.entries, hlines]
  exact (readsTo_listingLines h).entries

end Program

end Clerk
