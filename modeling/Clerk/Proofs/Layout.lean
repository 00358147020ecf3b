import Clerk.Proofs.JoinedListings
import Clerk.Proofs.ListingText

/-!
# Layout

What a listing says does not depend on how it is laid out.  Reading looks at each line without the
blanks around it, and a change to a line can only matter through what the line is: so blank lines,
comments and metadata blocks can be added, and keywords can be spelled in any case.  A change is
made where no metadata block is open, since inside a block every line is skipped.

* `Listing.readLines_of_trim` — blanks around a line do not count;
* `Listing.Outside` — lines after which no metadata block is open;
* `Listing.readLines_outside` — what follows them is read by itself;
* `Listing.Filler` — lines that can be left out;
* `Listing.Remarked`, `Listing.Recased` — a line with a comment put behind it, and a line with its
  keyword in another case;
* `Listing.entries_relaid` — none of these changes makes a difference.
-/

set_option autoImplicit false

namespace Clerk

open Text

namespace Listing

/-! ## Where a change can be made -/

/-- **Blanks around a line do not count.** -/
theorem readLines_of_trim {block : Option (List Char)} {first second : List (List Char)}
    (h : first.map trim = second.map trim) : readLines block first = readLines block second := by
  induction first generalizing block second with
  | nil =>
    obtain rfl := List.map_eq_nil_iff.1 h.symm
    rfl
  | cons line rest ih =>
    obtain ⟨line', rest', rfl, hline, hrest⟩ := List.map_eq_cons_iff.1 h.symm
    have hkind : Line.ofChars line' = Line.ofChars line := by
      rw [Line.ofChars, hline, Line.ofChars]
    cases block with
    | some opening =>
      rw [readLines, readLines, hline]
      exact ih hrest.symm
    | none =>
      rw [readLines, readLines, hkind, ih hrest.symm]

/-- The metadata block that is open after a line. -/
def openAfter : Option (List Char) → List Char → Option (List Char)
  | none, line => (Line.ofChars line).openBlock
  | some opening, line => if closesMetadata (trim line) then none else some opening

/-- No metadata block is open after the lines. -/
def Outside (lines : List (List Char)) : Prop :=
  lines.foldl openAfter none = none

instance (lines : List (List Char)) : Decidable (Outside lines) :=
  inferInstanceAs (Decidable (_ = _))

theorem openAfter_of_scan {block left : Option (List Char)} {lines : List (List Char)}
    {entries : List Entry} (h : scan block lines = .ok (entries, left)) :
    lines.foldl openAfter block = left := by
  induction lines generalizing block entries with
  | nil =>
    cases h
    rfl
  | cons line rest ih =>
    cases block with
    | some opening => exact ih h
    | none =>
      obtain ⟨here, -, h⟩ := bind_eq_ok h
      obtain ⟨⟨later, block⟩, hlater, h⟩ := bind_eq_ok h
      cases h
      exact ih hlater

/-- **Lines after which no block is open are read by themselves**, and so is what follows them. -/
theorem readLines_outside {before : List (List Char)} (h : Outside before) :
    (∃ cause, ∀ after, readLines none (before ++ after) = .error cause) ∨
    ∃ earlier, ∀ after, readLines none (before ++ after) =
      (readLines none after).map (earlier ++ ·) := by
  cases hscan : scan none before with
  | error cause =>
    refine Or.inl ⟨cause, fun after => ?_⟩
    rw [readLines_append, hscan]
    rfl
  | ok result =>
    obtain ⟨earlier, left⟩ := result
    obtain rfl : none = left := by rw [← openAfter_of_scan hscan, h]
    refine Or.inr ⟨earlier, fun after => ?_⟩
    rw [readLines_append, hscan]
    rfl

theorem readLines_congr_outside {before first second : List (List Char)} (h : Outside before)
    (heq : readLines none first = readLines none second) :
    readLines none (before ++ first) = readLines none (before ++ second) := by
  rcases readLines_outside h with ⟨cause, hall⟩ | ⟨earlier, hall⟩
  · rw [hall, hall]
  · rw [hall, hall, heq]

/-! ## Lines that can be left out -/

/-- Lines that a listing can do without: a blank line, a line that is a comment, or a metadata
block, from the line that opens it to the first line that closes it. -/
inductive Filler : List (List Char) → Prop
  | blank {line : List Char} (hline : trim line = []) : Filler [line]
  | comment {line : List Char} (hline : ['-', '-'] <+: trim line) : Filler [line]
  | block {lines : List (List Char)} {last : List Char}
      (hopens : ∃ opening, (lines ++ [last]).head? = some opening ∧
        opensMetadata (trim opening) = true)
      (hopen : ∀ line ∈ lines, closesMetadata (trim line) = false)
      (hcloses : closesMetadata (trim last) = true) : Filler (lines ++ [last])

theorem readLines_block {lines : List (List Char)} {last : List Char}
    (hopen : ∀ line ∈ lines, closesMetadata (trim line) = false)
    (hcloses : closesMetadata (trim last) = true) (opening : List Char)
    (rest : List (List Char)) :
    readLines (some opening) (lines ++ [last] ++ rest) = readLines none rest := by
  induction lines with
  | nil =>
    rw [List.nil_append, List.singleton_append, readLines, hcloses]
    rfl
  | cons line lines ih =>
    obtain ⟨hline, hlines⟩ := List.forall_mem_cons.1 hopen
    rw [List.cons_append, List.cons_append, readLines, hline]
    exact ih hlines

theorem ofChars_metadata {line : List Char} (h : opensMetadata (trim line) = true) :
    Line.ofChars line = .metadata (trim line) := by
  rw [Line.ofChars, Line.ofTrimmed, if_pos h]

/-- **Such lines give nothing.** -/
theorem Filler.readsTo {filler : List (List Char)} (h : Filler filler) : ReadsTo filler [] := by
  cases h with
  | @blank line hline =>
    have hkind : Line.ofChars line = .blank := by
      rw [Line.ofChars, hline]
      rfl
    exact readsTo_line (by rw [hkind]; rfl) (by rw [hkind]; rfl)
  | @comment line hline =>
    have hkind : Line.ofChars line = .blank := by
      obtain ⟨text, htext⟩ := hline
      rw [Line.ofChars, ← htext]
      exact ofTrimmed_comment text
    exact readsTo_line (by rw [hkind]; rfl) (by rw [hkind]; rfl)
  | @block lines last hopens hopen hcloses =>
    obtain ⟨opening, hhead, hopens⟩ := hopens
    have hkind := ofChars_metadata hopens
    cases lines with
    | nil =>
      -- the line that opens the block closes it too
      obtain rfl : last = opening := by simpa using hhead
      refine readsTo_line (by rw [hkind]; rfl) ?_
      rw [hkind, Line.openBlock, if_pos hcloses]
    | cons line lines =>
      obtain rfl : line = opening := by simpa using hhead
      obtain ⟨hline, hlines⟩ := List.forall_mem_cons.1 hopen
      intro rest
      have hblock : (Line.metadata (trim line)).openBlock = some (trim line) := by
        rw [Line.openBlock, hline]
        rfl
      rw [List.cons_append, List.cons_append, readLines, hkind, hblock,
        readLines_block hlines hcloses]
      cases readLines none rest <;> rfl

/-! ## Comments -/

/-- The second line is the first with blanks and a comment behind its code.  What ends a line may be
blank, as a carriage return is. -/
inductive Remarked : List Char → List Char → Prop
  | remark {code blanks comment ending : List Char} (hcode : opensMetadata (trim code) = false)
      (hne : blanks ≠ []) (hblanks : AllBlank blanks) (hending : AllBlank ending) :
    Remarked (code ++ ending) (code ++ blanks ++ '-' :: '-' :: comment ++ ending)

theorem not_letter_of_isBlank {c : Char} (h : isBlank c = true) :
    c.toLower ∉ ['d', 'e', 'f', 'i', 'n', 'e'] := by
  rw [toLower_of_isBlank h]
  intro hmem
  have hall : (['d', 'e', 'f', 'i', 'n', 'e'].all fun c => !isBlank c) = true := by decide
  have := List.all_eq_true.1 hall c hmem
  rw [h] at this
  cases this

theorem not_dash_of_allBlank {s : List Char} (h : AllBlank s) : '-' ∉ s := by
  intro hmem
  have := h _ hmem
  revert this
  decide

theorem ofTrimmed_eq_ofCode {line : List Char} (h : opensMetadata line = false) :
    Line.ofTrimmed line = Line.ofCode (trim (beforeComment line)) := by
  rw [Line.ofTrimmed, h]
  rfl

/-- **A comment behind a blank changes nothing.** -/
theorem ofTrimmed_remark {code gap : List Char} {c : Char} (hcode : opensMetadata code = false)
    (hgap : AllBlank (c :: gap)) (comment : List Char) :
    Line.ofTrimmed (code ++ c :: (gap ++ '-' :: '-' :: comment)) = Line.ofTrimmed code := by
  have hblank : isBlank c = true := hgap c (by simp)
  have hdash := not_dash_of_allBlank hgap
  rw [List.mem_cons, not_or] at hdash
  have hopens : opensMetadata (code ++ c :: (gap ++ '-' :: '-' :: comment)) = false := by
    rw [opensMetadata_append_cons (not_letter_of_isBlank hblank), hcode]
  have hgone : beforeComment (gap ++ '-' :: '-' :: comment) = gap := by
    rw [beforeComment_append hdash.2, beforeComment, List.append_nil]
  rw [ofTrimmed_eq_ofCode hopens, ofTrimmed_eq_ofCode hcode,
    beforeComment_append_cons (Ne.symm hdash.1), hgone]
  split
  · rfl
  · rename_i hcomment
    rw [beforeComment_of_hasComment (Bool.eq_false_iff.2 hcomment), trim_append_right hgap]

theorem Remarked.ofChars_eq {line line' : List Char} (h : Remarked line line') :
    Line.ofChars line' = Line.ofChars line := by
  cases h with
  | @remark code blanks comment ending hcode hne hblanks hending =>
    obtain ⟨left, right, hleft, hright, heq⟩ := exists_eq_trim code
    obtain ⟨c, gap, hgap⟩ : ∃ c gap, right ++ blanks = c :: gap :=
      List.exists_cons_of_ne_nil (by simp [hne])
    have hall : AllBlank (c :: gap) := by
      rw [← hgap]
      intro d hd
      rcases List.mem_append.1 hd with hd | hd
      · exact hright d hd
      · exact hblanks d hd
    -- the blanks before the comment are those of the line and those that were added
    have hline : code ++ blanks ++ '-' :: '-' :: comment ++ ending =
        left ++ (trim code ++ c :: (gap ++ '-' :: '-' :: comment)) ++ ending := by
      have hspread : right ++ (blanks ++ '-' :: '-' :: comment) =
          c :: (gap ++ '-' :: '-' :: comment) := by
        rw [← List.append_assoc, hgap, List.cons_append]
      nth_rewrite 1 [heq]
      simp only [List.append_assoc, ← hspread]
    have hdash : isBlank '-' = false := by decide
    rw [hline, Line.ofChars, Line.ofChars, trim_append_right hending, trim_append_right hending,
      trim_append_left hleft]
    cases hcase : trim code with
    | nil =>
      have hcomment : trim (c :: (gap ++ '-' :: '-' :: comment)) =
          '-' :: '-' :: trimRight comment := by
        rw [← List.cons_append, trim_append_left hall, trim_cons_of_not_blank hdash,
          trimRight_cons hdash]
      rw [List.nil_append, hcomment, ofTrimmed_comment]
      rfl
    | cons d rest =>
      have hd : isBlank d = false := (tight_trim code).head d (by rw [hcase]; rfl)
      have htrim : trim (d :: rest ++ c :: (gap ++ '-' :: '-' :: comment)) =
          d :: rest ++ c :: (gap ++ '-' :: '-' :: trimRight comment) := by
        have hsplit : rest ++ c :: (gap ++ '-' :: '-' :: comment) =
            (rest ++ c :: gap) ++ '-' :: '-' :: comment := by simp
        rw [List.cons_append, trim_cons_of_not_blank hd, hsplit, trimRight_append_cons hdash,
          trimRight_cons hdash]
        simp
      rw [htrim, ← hcase]
      exact ofTrimmed_remark hcode hall _

/-! ## Keywords in another case -/

/-- The second line is the first with another case for the letters of its keyword, the first word
of the operation on it. -/
inductive Recased : List Char → List Char → Prop
  | recase {left keyword respelled right code : List Char} {operands : List (List Char)}
      (hleft : AllBlank left) (hcode : Line.ofChars (left ++ keyword ++ right) = .code code)
      (hwords : words code = keyword :: operands)
      (hletters : sameLetters keyword respelled = true) :
    Recased (left ++ keyword ++ right) (left ++ respelled ++ right)

/-- A word that a line of code can start with whatever follows. -/
structure Leads (word : List Char) : Prop where
  ne_nil : word ≠ []
  chars : ∀ c ∈ word, isBlank c = false ∧ c ≠ ':' ∧ c ≠ '-'
  opens : ∀ s, opensMetadata (word ++ s) = false

end Listing

/-- **Every spelling of a keyword can start a line of code.** -/
theorem Keyword.leads {word : List Char} {keyword : Keyword}
    (h : Keyword.ofChars? word = some keyword) : Listing.Leads word := by
  have hfold : foldCase keyword.mnemonic.toList = foldCase word := by
    simpa [sameLetters] using Keyword.ofChars?_eq_some_iff.1 h
  have hall : ∀ keyword ∈ Keyword.all, (foldCase keyword.mnemonic.toList).all
      (fun c => !isBlank c && c != ':' && c != '-') = true := by decide
  have hletters := List.all_eq_true.1 (hall keyword keyword.mem_all)
  have hlower : ∀ c ∈ word, c.toLower ∈ foldCase keyword.mnemonic.toList := by
    intro c hc
    rw [hfold]
    exact List.mem_map_of_mem hc
  obtain ⟨first, rest, hfirst, hhead⟩ := keyword.head_mnemonic
  refine ⟨?_, ?_, ?_⟩
  · rintro rfl
    rw [hfirst] at hfold
    cases hfold
  · intro c hc
    have hc := hletters _ (hlower c hc)
    simp only [Bool.and_eq_true, Bool.not_eq_true', bne_iff_ne] at hc
    refine ⟨?_, ?_, ?_⟩
    · by_contra hblank
      rw [Bool.not_eq_false] at hblank
      rw [toLower_of_isBlank hblank, hblank] at hc
      exact absurd hc.1.1 (by decide)
    · rintro rfl
      exact hc.1.2 (by decide)
    · rintro rfl
      exact hc.2 (by decide)
  · intro s
    cases word with
    | nil =>
      rw [hfirst] at hfold
      cases hfold
    | cons c word =>
      refine Listing.opensMetadata_of_head ?_ _
      rw [hfirst] at hfold
      rwa [← (List.cons.inj hfold).1]

/-- Only the keyword itself counts, not how it is spelled. -/
theorem Op.ofWords_recase {first second : List Char} {keyword : Keyword}
    (hfirst : Keyword.ofChars? first = some keyword)
    (hsecond : Keyword.ofChars? second = some keyword) (operands : List (List Char)) :
    Op.ofWords (first :: operands) = Op.ofWords (second :: operands) := by
  simp only [Op.ofWords, List.headD_cons, List.tail_cons, hfirst, hsecond]

namespace Listing

theorem Leads.not_dash {word : List Char} (h : Leads word) : '-' ∉ word :=
  fun hmem => (h.chars _ hmem).2.2 rfl

theorem Leads.not_blank {word : List Char} (h : Leads word) : ∀ c ∈ word, isBlank c = false :=
  fun c hc => (h.chars c hc).1

/-- The code of a line that starts with such a word starts with it too. -/
theorem Leads.ofChars_eq {left word : List Char} (h : Leads word) (hleft : AllBlank left)
    (right : List Char) :
    Line.ofChars (left ++ word ++ right) =
      Line.ofCode (word ++ trimRight (beforeComment (trimRight right))) := by
  rw [List.append_assoc, Line.ofChars, trim_append_left hleft,
    trim_word_append h.ne_nil h.not_blank, ofTrimmed_eq_ofCode (h.opens _),
    beforeComment_append h.not_dash,
    trim_word_append h.ne_nil h.not_blank]

theorem Leads.getLast? {word : List Char} (h : Leads word) (tail : List Char) :
    (word ++ tail).getLast? = some ':' ↔ tail.getLast? = some ':' := by
  by_cases htail : tail = []
  · subst htail
    rw [List.append_nil]
    refine ⟨fun hlast => ?_, fun hlast => by cases hlast⟩
    exact absurd rfl (h.chars _ (List.mem_of_getLast? hlast)).2.1
  · rw [List.getLast?_append_of_ne_nil _ htail]

theorem Leads.ofCode_eq {word : List Char} (h : Leads word) (tail : List Char) :
    Line.ofCode (word ++ tail) =
      if tail.getLast? = some ':' then .labels (Line.labelNames (word ++ tail))
      else .code (word ++ tail) := by
  rw [Line.ofCode, if_neg (by simp [h.ne_nil])]
  simp only [h.getLast? tail]

/-- **A line with its keyword in another case is read alike**, provided that it can be read. -/
theorem Recased.entries_eq {line line' : List Char} (h : Recased line line') {entries : List Entry}
    (hentries : (Line.ofChars line).entries = .ok entries) :
    (Line.ofChars line').entries = .ok entries ∧
      (Line.ofChars line').openBlock = (Line.ofChars line).openBlock := by
  cases h with
  | @recase left keyword respelled right code operands hleft hcode hwords hletters =>
    obtain ⟨op, hop, hentry⟩ : ∃ op, Op.ofChars code = .ok op ∧ [Entry.ofOp op] = entries := by
      rw [hcode] at hentries
      obtain ⟨op, hop, hentry⟩ := bind_eq_ok hentries
      exact ⟨op, hop, Except.ok.inj hentry⟩
    have hfound : Keyword.ofChars? keyword = some op.keyword := by
      have hspelled := (Op.ofChars_eq_ok_iff.1 hop).2
      rw [hwords] at hspelled
      exact (Op.spelled_cons_iff.1 hspelled).1
    rw [Op.ofChars, hwords] at hop
    have hfound' : Keyword.ofChars? respelled = some op.keyword := by
      rw [← Keyword.ofChars?_eq_of_sameLetters hletters, hfound]
    have hleads := Keyword.leads hfound
    have hleads' := Keyword.leads hfound'
    have hsame := hcode
    rw [hleads.ofChars_eq hleft, hleads.ofCode_eq] at hsame
    split at hsame
    · cases hsame
    · rename_i hlast
      cases hsame
      have hcode' : Line.ofChars (left ++ respelled ++ right) =
          .code (respelled ++ trimRight (beforeComment (trimRight right))) := by
        rw [hleads'.ofChars_eq hleft, hleads'.ofCode_eq, if_neg hlast]
      have hop' : Op.ofChars (respelled ++ trimRight (beforeComment (trimRight right))) =
          .ok op := by
        rw [Op.ofChars, words_replace hleads.ne_nil hleads.not_blank hleads'.ne_nil
          hleads'.not_blank hwords, ← Op.ofWords_recase hfound hfound' operands, hop]
      rw [hcode, hcode']
      refine ⟨?_, rfl⟩
      rw [Line.entries, hop', ← hentry]
      rfl

/-! ## Whole listings -/

theorem readLines_congr_line {line line' : List Char}
    (hentries : (Line.ofChars line').entries = (Line.ofChars line).entries)
    (hopen : (Line.ofChars line').openBlock = (Line.ofChars line).openBlock)
    (after : List (List Char)) :
    readLines none (line' :: after) = readLines none (line :: after) := by
  rw [readLines, readLines, hentries, hopen]

theorem entries_of_readLines {before after : List (List Char)} {line : List Char}
    {all : List Entry} (hout : Outside before)
    (h : readLines none (before ++ line :: after) = .ok all) :
    ∃ entries, (Line.ofChars line).entries = .ok entries := by
  rcases readLines_outside hout with ⟨cause, hall⟩ | ⟨earlier, hall⟩
  · rw [hall] at h
    cases h
  · rw [hall, readLines] at h
    cases hline : (Line.ofChars line).entries with
    | error cause =>
      rw [hline] at h
      cases h
    | ok entries => exact ⟨entries, rfl⟩

/-- **Layout does not matter.**  A listing is read as before

* when its lines differ only in the blanks around them, so also with carriage returns before its
  newlines;
* when lines that say nothing are put where no metadata block is open;
* when a comment is put behind a line that neither opens a metadata block nor stands in one;
* when it can be read and a keyword is put in another case. -/
theorem entries_relaid (t u : String) :
    ((lines u.toList).map trim = (lines t.toList).map trim → entries u = entries t) ∧
    (u.toList = withReturns t.toList → entries u = entries t) ∧
    (∀ before filler after, Outside before → Filler filler →
      lines t.toList = before ++ after → lines u.toList = before ++ filler ++ after →
        entries u = entries t) ∧
    (∀ before line line' after, Outside before → Remarked line line' →
      lines t.toList = before ++ line :: after → lines u.toList = before ++ line' :: after →
        entries u = entries t) ∧
    ∀ before line line' after, Outside before → Recased line line' →
      lines t.toList = before ++ line :: after → lines u.toList = before ++ line' :: after →
        ∀ all, entries t = .ok all → entries u = .ok all := by
  refine ⟨?_, ?_, ?_, ?_, ?_⟩
  · exact readLines_of_trim
  · intro hu
    refine readLines_of_trim ?_
    rw [hu, map_trim_lines_withReturns]
  · intro before filler after hout hfiller ht hu
    have hgone : readLines none (filler ++ after) = readLines none after := by
      rw [hfiller.readsTo after]
      cases readLines none after <;> rfl
    rw [entries, entries, ht, hu, List.append_assoc]
    exact readLines_congr_outside hout hgone
  · intro before line line' after hout hremarked ht hu
    have hline := hremarked.ofChars_eq
    rw [entries, entries, ht, hu]
    exact readLines_congr_outside hout (readLines_congr_line (by rw [hline]) (by rw [hline]) after)
  · intro before line line' after hout hrecased ht hu all hall
    rw [entries, ht] at hall
    obtain ⟨here, hhere⟩ := entries_of_readLines hout hall
    obtain ⟨hentries, hopen⟩ := hrecased.entries_eq hhere
    rw [entries, hu, ← hall]
    exact readLines_congr_outside hout (readLines_congr_line (by rw [hentries, hhere]) hopen after)

theorem entries_relaid_edits :
    entries "\ta: \n  define\n ;\r\nJUMP a " = entries "a:\ndefine\n;\nJUMP a" ∧
    entries "a:\r\nb b:\r\n" = entries "a:\nb b:\n" ∧
    entries "INBOX\ndefine x\n y;\nDEFINE z" = entries "INBOX\nDEFINE z" ∧
    entries "defin \t--e;\r\nINBOX" = entries "defin\r\nINBOX" ∧
    entries "  jumpN\ta--jump\na:" =
      .ok [Entry.ofOp (.jump (some .negative) "a"), Entry.mark "a"] ∧
    entries "  JuMPn\ta--jump\na:" =
      .ok [Entry.ofOp (.jump (some .negative) "a"), Entry.mark "a"] := by
  have htrim : (lines "\ta: \n  define\n ;\r\nJUMP a ".toList).map trim =
      (lines "a:\ndefine\n;\nJUMP a".toList).map trim := by decide +kernel
  have hreturns : "a:\r\nb b:\r\n".toList = withReturns "a:\nb b:\n".toList := by decide +kernel
  have hfiller : Filler ["define x".toList, " y;".toList] := by
    have hopens : ∃ opening, (["define x".toList] ++ [" y;".toList]).head? = some opening ∧
        opensMetadata (trim opening) = true := ⟨_, rfl, by decide +kernel⟩
    exact .block hopens (by decide +kernel) (by decide +kernel)
  have hremarked : Remarked ("defin".toList ++ ['\r'])
      ("defin".toList ++ [' ', '\t'] ++ '-' :: '-' :: ['e', ';'] ++ ['\r']) :=
    .remark (by decide +kernel) (by decide) (by decide) (by decide)
  have hrecased : Recased ([' ', ' '] ++ "jumpN".toList ++ "\ta--jump".toList)
      ([' ', ' '] ++ "JuMPn".toList ++ "\ta--jump".toList) := by
    have hcode : Line.ofChars ([' ', ' '] ++ "jumpN".toList ++ "\ta--jump".toList) =
        .code "jumpN\ta".toList := by decide +kernel
    have hwords : words "jumpN\ta".toList = "jumpN".toList :: [['a']] := by decide +kernel
    exact .recase (by decide) hcode hwords (by decide +kernel)
  have hread : entries "  jumpN\ta--jump\na:" =
      .ok [Entry.ofOp (.jump (some .negative) "a"), Entry.mark "a"] := by decide +kernel
  refine ⟨(entries_relaid _ _).1 htrim, (entries_relaid _ _).2.1 hreturns, ?_, ?_, hread, ?_⟩
  · exact (entries_relaid _ _).2.2.1 ["INBOX".toList] _ ["DEFINE z".toList] (by decide +kernel)
      hfiller (by decide +kernel) (by decide +kernel)
  · exact (entries_relaid _ _).2.2.2.1 [] _ _ ["INBOX".toList] rfl hremarked (by decide +kernel)
      (by decide +kernel)
  · exact (entries_relaid _ _).2.2.2.2 [] _ _ ["a:".toList] rfl hrecased (by decide +kernel)
      (by decide +kernel) _ hread

end Listing

end Clerk
