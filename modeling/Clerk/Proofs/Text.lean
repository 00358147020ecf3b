import Clerk.Number
import Mathlib.Data.List.DropRight

/-!
# Trimming, words, lines and numbers

* `Text.trim_of_tight`, `Text.tight_trim` — a text without blanks at its ends is left as it is by
  trimming, and trimming makes it so;
* `Text.exists_eq_trim` — what trimming takes away is blanks;
* `Text.words_singleton`, `Text.words_pair` — the words of one word and of two;
* `Text.lines_intercalate`, `Text.lines_join` — lines with newlines between them, or with one after
  each, are read back;
* `Text.lines_append_newline` — the lines of two texts with a newline between them;
* `Text.map_trim_lines_withReturns` — carriage returns at the ends of lines do not count;
* `Number.ofChars?_chars` — a number in decimal is read back.
-/

set_option autoImplicit false

namespace Clerk

namespace Text

/-! ## Trimming -/

/-- There is no blank at either end. -/
structure Tight (s : List Char) : Prop where
  head : ∀ c, s.head? = some c → isBlank c = false
  last : ∀ c, s.getLast? = some c → isBlank c = false

theorem trimLeft_of_head {s : List Char} (h : ∀ c, s.head? = some c → isBlank c = false) :
    trimLeft s = s := by
  cases s with
  | nil => rfl
  | cons c rest => simp [trimLeft, h c rfl]

theorem trimRight_of_last {s : List Char} (h : ∀ c, s.getLast? = some c → isBlank c = false) :
    trimRight s = s := by
  refine List.rdropWhile_eq_self_iff.2 fun hne => ?_
  rw [h _ (List.getLast?_eq_some_getLast hne)]
  exact Bool.false_ne_true

theorem trim_of_tight {s : List Char} (h : Tight s) : trim s = s := by
  rw [trim, trimLeft_of_head h.head, trimRight_of_last h.last]

theorem tight_of_forall {s : List Char} (h : ∀ c ∈ s, isBlank c = false) : Tight s :=
  ⟨fun c hc => h c (List.mem_of_head? hc), fun c hc => h c (List.mem_of_getLast? hc)⟩

/-- A text that starts and ends with a word has no blank at its ends. -/
theorem tight_append {a b : List Char} (ha : a ≠ []) (hb : b ≠ []) (hta : Tight a)
    (htb : Tight b) (c : Char) : Tight (a ++ c :: b) := by
  constructor
  · intro d hd
    rw [List.head?_append_of_ne_nil _ ha] at hd
    exact hta.head d hd
  · intro d hd
    rw [List.getLast?_append_of_ne_nil _ (by simp), List.getLast?_cons_of_ne_nil hb] at hd
    exact htb.last d hd

theorem trim_cons_of_blank {c : Char} (h : isBlank c = true) (s : List Char) :
    trim (c :: s) = trim s := by
  simp [trim, trimLeft, h]

theorem trimRight_append_cons {c : Char} (h : isBlank c = false) (a s : List Char) :
    trimRight (a ++ c :: s) = a ++ c :: trimRight s := by
  have hreverse : (a ++ c :: s).reverse = s.reverse ++ c :: a.reverse := by simp
  unfold trimRight
  rw [hreverse, List.dropWhile_append]
  split
  · rename_i hempty
    rw [List.isEmpty_iff.1 hempty]
    simp [h]
  · simp

theorem trimRight_cons {c : Char} (h : isBlank c = false) (s : List Char) :
    trimRight (c :: s) = c :: trimRight s :=
  trimRight_append_cons h [] s

theorem trim_cons_of_not_blank {c : Char} (h : isBlank c = false) (s : List Char) :
    trim (c :: s) = c :: trimRight s := by
  rw [trim, trimLeft, List.dropWhile_cons_of_neg (by simp [h]), trimRight_cons h]

theorem trimRight_word_append {a : List Char} (ha : ∀ c ∈ a, isBlank c = false) (s : List Char) :
    trimRight (a ++ s) = a ++ trimRight s := by
  induction a with
  | nil => rfl
  | cons c a ih =>
    obtain ⟨hc, ha⟩ := List.forall_mem_cons.1 ha
    rw [List.cons_append, trimRight_cons hc, ih ha]
    rfl

/-- A word at the beginning is kept. -/
theorem trim_word_append {a : List Char} (hne : a ≠ []) (ha : ∀ c ∈ a, isBlank c = false)
    (s : List Char) : trim (a ++ s) = a ++ trimRight s := by
  obtain ⟨c, rest, rfl⟩ := List.exists_cons_of_ne_nil hne
  have hc := (List.forall_mem_cons.1 ha).1
  rw [List.cons_append, trim_cons_of_not_blank hc, ← trimRight_cons hc]
  exact trimRight_word_append ha s

theorem mem_of_mem_trim {c : Char} {s : List Char} (h : c ∈ trim s) : c ∈ s :=
  (List.dropWhile_suffix _).subset ((List.rdropWhile_prefix _ _).subset h)

theorem tight_trim (s : List Char) : Tight (trim s) := by
  constructor
  · intro c hc
    cases hleft : trimLeft s with
    | nil =>
      rw [trim, hleft] at hc
      cases hc
    | cons d rest =>
      have hd : isBlank d = false := by
        have hhead := List.head?_dropWhile_not isBlank s
        rw [← trimLeft, hleft] at hhead
        exact hhead
      rw [trim, hleft, trimRight_cons hd] at hc
      cases hc
      exact hd
  · intro c hc
    have hne : trim s ≠ [] := by
      intro heq
      rw [heq] at hc
      cases hc
    have hlast := List.rdropWhile_last_not isBlank (trimLeft s) hne
    rw [List.getLast?_eq_some_getLast hne] at hc
    cases hc
    exact Bool.eq_false_iff.2 hlast

/-! ## Blanks around a text -/

/-- There are only blanks. -/
def AllBlank (s : List Char) : Prop :=
  ∀ c ∈ s, isBlank c = true

instance (s : List Char) : Decidable (AllBlank s) :=
  decidable_of_iff (s.all isBlank = true) List.all_eq_true

theorem trim_append_left {a : List Char} (h : AllBlank a) (s : List Char) :
    trim (a ++ s) = trim s := by
  rw [trim, trimLeft, List.dropWhile_append_of_pos h]
  rfl

theorem trimRight_append_right {b : List Char} (h : AllBlank b) (s : List Char) :
    trimRight (s ++ b) = trimRight s := by
  unfold trimRight
  rw [List.reverse_append, List.dropWhile_append_of_pos]
  intro c hc
  exact h c (List.mem_reverse.1 hc)

theorem trim_append_right {b : List Char} (h : AllBlank b) (s : List Char) :
    trim (s ++ b) = trim s := by
  unfold trim trimLeft
  rw [List.dropWhile_append]
  split
  · rename_i hempty
    rw [List.isEmpty_iff.1 hempty, List.dropWhile_eq_nil_iff.2 h]
  · exact trimRight_append_right h _

/-- **What trimming takes away is blanks.** -/
theorem exists_eq_trim (s : List Char) :
    ∃ a b, AllBlank a ∧ AllBlank b ∧ s = a ++ trim s ++ b := by
  refine ⟨s.takeWhile isBlank, (trimLeft s).rtakeWhile isBlank, ?_, ?_, ?_⟩
  · intro c hc
    exact List.mem_takeWhile_imp hc
  · intro c hc
    exact List.mem_rtakeWhile_imp hc
  · have hright : trimRight (trimLeft s) ++ (trimLeft s).rtakeWhile isBlank = trimLeft s :=
      List.rdropWhile_append_rtakeWhile ..
    rw [List.append_assoc, trim, hright]
    exact List.takeWhile_append_dropWhile.symm

/-- No letter that has a case is blank. -/
theorem toLower_of_isBlank {c : Char} (h : isBlank c = true) : c.toLower = c := by
  unfold Char.toLower
  rw [dif_neg]
  rintro ⟨hlower, hupper⟩
  simp only [ge_iff_le, UInt32.le_iff_toNat_le] at hlower hupper
  have hrange : 65 ≤ c.toNat ∧ c.toNat ≤ 90 := ⟨hlower, hupper⟩
  simp only [isBlank, blankRanges, List.any_cons, List.any_nil, Bool.or_false, Bool.or_eq_true,
    Bool.and_eq_true, decide_eq_true_eq] at h
  omega

/-! ## Words -/

theorem words_singleton {a : List Char} (hne : a ≠ []) (ha : ∀ c ∈ a, isBlank c = false) :
    words a = [a] := by
  rw [words, List.splitOnP_eq_singleton ha]
  simp [hne]

theorem words_pair {a b : List Char} (ha : a ≠ []) (hwa : ∀ c ∈ a, isBlank c = false)
    (hb : b ≠ []) (hwb : ∀ c ∈ b, isBlank c = false) {c : Char} (hc : isBlank c = true) :
    words (a ++ c :: b) = [a, b] := by
  rw [words, List.splitOnP_append_cons_of_forall_mem hwa c hc, List.splitOnP_eq_singleton hwb]
  simp [ha, hb]

theorem splitOnP_append {a : List Char} (ha : ∀ c ∈ a, isBlank c = false) (s : List Char) :
    (a ++ s).splitOnP isBlank = (s.splitOnP isBlank).modifyHead (a ++ ·) := by
  induction a with
  | nil =>
    obtain ⟨first, rest, hsplit⟩ := List.exists_cons_of_ne_nil (List.splitOnP_ne_nil isBlank s)
    simp [hsplit]
  | cons c a ih =>
    obtain ⟨hc, ha⟩ := List.forall_mem_cons.1 ha
    rw [List.cons_append, List.splitOnP_cons_eq_if_modifyHead, ih ha, hc,
      List.modifyHead_modifyHead]
    rfl

/-- The first word of a text can be replaced by another. -/
theorem words_replace {a b s : List Char} {rest : List (List Char)} (ha : a ≠ [])
    (hwa : ∀ c ∈ a, isBlank c = false) (hb : b ≠ []) (hwb : ∀ c ∈ b, isBlank c = false)
    (h : words (a ++ s) = a :: rest) : words (b ++ s) = b :: rest := by
  obtain ⟨first, others, hsplit⟩ := List.exists_cons_of_ne_nil (List.splitOnP_ne_nil isBlank s)
  simp only [words, splitOnP_append hwa, splitOnP_append hwb, hsplit, List.modifyHead_cons] at h ⊢
  rw [List.filter_cons_of_pos (by simp [ha])] at h
  rw [List.filter_cons_of_pos (by simp [hb])]
  obtain ⟨hfirst, hothers⟩ := List.cons.inj h
  rw [hothers, List.append_right_eq_self.1 hfirst, List.append_nil]

/-! ## Lines -/

theorem lines_intercalate {ls : List (List Char)} (hnewline : ∀ l ∈ ls, '\n' ∉ l)
    (hempty : [] ∉ ls) : lines (['\n'].intercalate ls) = ls := by
  by_cases hne : ls = []
  · subst hne
    rfl
  · rw [lines, List.splitOn_intercalate _ hnewline hne]
    rw [if_neg]
    intro h
    exact hempty (List.mem_of_getLast? h)

theorem lines_append_newline (s t : List Char) :
    lines (s ++ '\n' :: t) = s.splitOn '\n' ++ lines t := by
  have hne : t.splitOn '\n' ≠ [] := List.splitOn_ne_nil _ _
  unfold lines
  simp only [List.splitOn_append_cons_self, List.getLast?_append_of_ne_nil _ hne]
  split
  · exact List.dropLast_append_of_ne_nil hne
  · rfl

/-- Lines that each end in a newline are read back, also empty ones. -/
theorem lines_terminated {ls : List (List Char)} (hnewline : ∀ l ∈ ls, '\n' ∉ l) :
    lines (ls.flatMap (· ++ ['\n'])) = ls := by
  induction ls with
  | nil => rfl
  | cons l rest ih =>
    have hrest : ∀ other ∈ rest, '\n' ∉ other := fun other hmem =>
      hnewline other (List.mem_cons_of_mem _ hmem)
    rw [List.flatMap_cons, List.append_assoc, List.singleton_append, lines_append_newline,
      List.splitOn_eq_singleton (hnewline l (by simp)), ih hrest]
    rfl

theorem lines_join {ls : List String} (hnewline : ∀ l ∈ ls, '\n' ∉ l.toList) :
    lines (String.join (ls.map (· ++ "\n"))).toList = ls.map String.toList := by
  have htext : (String.join (ls.map (· ++ "\n"))).toList =
      (ls.map String.toList).flatMap (· ++ ['\n']) := by
    rw [String.toList_join, List.flatMap_map, List.flatMap_map]
    simp [String.toList_append]
  rw [htext]
  refine lines_terminated fun l hl => ?_
  obtain ⟨line, hline, rfl⟩ := List.mem_map.1 hl
  exact hnewline line hline

/-- Cutting at newlines leaves one piece that is no line: the empty one at the end. -/
theorem splitOn_newline (s : List Char) :
    s.splitOn '\n' = lines s ∨ s.splitOn '\n' = lines s ++ [[]] := by
  unfold lines
  simp only
  split
  · rename_i hlast
    obtain ⟨front, hfront⟩ := List.getLast?_eq_some_iff.1 hlast
    refine Or.inr ?_
    rw [hfront, List.dropLast_concat]
  · exact Or.inl rfl

/-- No piece holds a character at which the text was cut. -/
theorem not_of_mem_splitOnP {p : Char → Bool} {s piece : List Char} (h : piece ∈ s.splitOnP p) :
    ∀ c ∈ piece, p c = false := by
  induction s generalizing piece with
  | nil =>
    obtain rfl : piece = [] := by simpa using h
    simp
  | cons d rest ih =>
    rw [List.splitOnP_cons_eq_if_modifyHead] at h
    split at h
    · rcases List.mem_cons.1 h with rfl | h
      · simp
      · exact ih h
    · rename_i hd
      obtain ⟨first, others, hsplit⟩ := List.exists_cons_of_ne_nil (List.splitOnP_ne_nil p rest)
      rw [hsplit, List.modifyHead_cons] at h
      rcases List.mem_cons.1 h with rfl | h
      · exact List.forall_mem_cons.2 ⟨Bool.eq_false_iff.2 hd, ih (by simp [hsplit])⟩
      · exact ih (by simp [hsplit, h])

theorem not_mem_of_mem_splitOn {c : Char} {s piece : List Char} (h : piece ∈ s.splitOn c) :
    c ∉ piece := by
  rw [List.splitOn_eq_splitOnP] at h
  intro hmem
  simpa using not_of_mem_splitOnP h c hmem

theorem not_blank_of_mem_words {s word : List Char} (h : word ∈ words s) :
    ∀ c ∈ word, isBlank c = false :=
  not_of_mem_splitOnP (List.mem_filter.1 h).1

theorem not_mem_of_mem_lines {s line : List Char} (h : line ∈ lines s) : '\n' ∉ line := by
  simp only [lines] at h
  split at h
  · exact not_mem_of_mem_splitOn ((List.dropLast_sublist _).subset h)
  · exact not_mem_of_mem_splitOn h

theorem not_mem_of_mem_trimmedLines {s line : List Char} (h : line ∈ trimmedLines s) :
    '\n' ∉ line := by
  obtain ⟨h, -⟩ := List.mem_filter.1 h
  obtain ⟨raw, hraw, rfl⟩ := List.mem_map.1 h
  exact fun hmem => not_mem_of_mem_lines hraw (mem_of_mem_trim hmem)

/-- The text with a carriage return before every newline. -/
def withReturns (s : List Char) : List Char :=
  s.flatMap fun c => if c = '\n' then ['\r', '\n'] else [c]

theorem withReturns_of_not_mem {s : List Char} (h : '\n' ∉ s) : withReturns s = s := by
  induction s with
  | nil => rfl
  | cons c rest ih =>
    simp only [List.mem_cons, not_or] at h
    rw [withReturns, List.flatMap_cons, if_neg (Ne.symm h.1)]
    exact congrArg _ (ih h.2)

/-- **Carriage returns at the ends of lines do not count.** -/
theorem map_trim_lines_withReturns (s : List Char) :
    (lines (withReturns s)).map trim = (lines s).map trim := by
  induction hlength : s.length using Nat.strongRecOn generalizing s with
  | _ length ih =>
    by_cases hmem : '\n' ∈ s
    · -- the first line ends at the first newline, and the rest is shorter
      obtain ⟨first, rest, rfl, hfirst⟩ := List.eq_append_cons_of_mem hmem
      have hreturns : withReturns (first ++ '\n' :: rest) =
          (first ++ ['\r']) ++ '\n' :: withReturns rest := by
        have hline := withReturns_of_not_mem hfirst
        unfold withReturns at hline ⊢
        rw [List.flatMap_append, List.flatMap_cons, hline]
        simp
      have hreturn : AllBlank ['\r'] := by decide
      have hline : '\n' ∉ first ++ ['\r'] := by simpa using hfirst
      have hrest : (lines (withReturns rest)).map trim = (lines rest).map trim := by
        refine ih rest.length ?_ rest rfl
        rw [← hlength, List.length_append, List.length_cons]
        omega
      rw [hreturns, lines_append_newline, lines_append_newline, List.splitOn_eq_singleton hline,
        List.splitOn_eq_singleton hfirst, List.map_append, List.map_append, hrest]
      simp only [List.map_singleton, trim_append_right hreturn]
    · rw [withReturns_of_not_mem hmem]

theorem isBlank_newline : isBlank '\n' = true := by decide

theorem isBlank_tab : isBlank '\t' = true := by decide

theorem not_blank_of_isDigit {c : Char} (h : c.isDigit = true) : isBlank c = false := by
  have hrange : 48 ≤ c.toNat ∧ c.toNat ≤ 57 := Char.isDigit_iff_toNat.1 h
  simp only [isBlank, blankRanges, List.any_cons, List.any_nil, Bool.or_false,
    Bool.or_eq_false_iff, Bool.and_eq_false_iff, decide_eq_false_iff_not]
  omega

end Text

/-! ## Numbers -/

namespace Decimal

theorem isDigit_of_mem_ofNat {n : Nat} {c : Char} (h : c ∈ ofNat n) : c.isDigit = true :=
  Nat.isDigit_of_mem_toDigits (by decide) (by decide) h

theorem toNat?_ofNat (n : Nat) : toNat? (ofNat n) = some n := by
  have hne : (ofNat n).isEmpty = false := by simp [ofNat]
  have hall : (ofNat n).all Char.isDigit = true :=
    List.all_eq_true.2 fun c hc => isDigit_of_mem_ofNat hc
  rw [toNat?, hne, hall]
  simp [ofNat]

theorem toInt?_ofInt (n : Int) : toInt? (ofInt n) = some n := by
  unfold ofInt
  split
  · rw [toInt?, toNat?_ofNat, Option.map_some]
    simp only [Int.ofNat_eq_natCast, Option.some_inj]
    omega
  · -- the first digit is no sign, so the third case of the reader applies
    have hplain : ∀ digits : List Char, ofNat n.natAbs ≠ '-' :: digits ∧
        ofNat n.natAbs ≠ '+' :: digits := by
      intro digits
      constructor <;> intro heq
      · have := isDigit_of_mem_ofNat (n := n.natAbs) (c := '-') (by simp [heq])
        exact absurd this (by decide)
      · have := isDigit_of_mem_ofNat (n := n.natAbs) (c := '+') (by simp [heq])
        exact absurd this (by decide)
    rw [toInt?, toNat?_ofNat, Option.map_some]
    · simp only [Int.ofNat_eq_natCast, Option.some_inj]
      omega
    · exact fun digits => (hplain digits).1
    · exact fun digits => (hplain digits).2

end Decimal

theorem Number.ofChars?_chars (n : Number) : Number.ofChars? n.chars = some n := by
  rw [Number.ofChars?, Number.chars, Decimal.toInt?_ofInt]
  exact Number.ofInt?_val n

end Clerk
