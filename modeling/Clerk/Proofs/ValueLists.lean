import Clerk.Proofs.OpText
import Clerk.Value.Operations

/-!
# Lists of values in writing

A list of values is written with a comma and a space between two of them, and cut at its commas
when it is read.  It comes back if no value is taken for something else on the way: nothing at all
is written as a word, a comma would cut the list, blanks would be trimmed, and a digit would be read
as a number.  No text is read as a list with any of these, so no other list can come back.

* `Value.isListable` — the values that can stand in a list;
* `Value.ofWord?_text` — such a value is read back from its text;
* `Value.listOfText_listText` — so is a list of them;
* `Value.isListable_of_listOfText` — whatever is read is a list of them;
* `Value.listOfText_listText_iff` — the lists that are read back are the lists that can be read.
-/

set_option autoImplicit false

namespace Clerk

open Text

/-- A character that is no digit is no number. -/
theorem Number.ofChars?_singleton {c : Char} (h : c.isDigit = false) :
    Number.ofChars? [c] = none := by
  have hdigits : Decimal.toNat? [c] = none := by simp [Decimal.toNat?, h]
  unfold Number.ofChars? Decimal.toInt?
  split
  · rename_i heq
    cases heq
    rfl
  · rename_i heq
    cases heq
    rfl
  · rw [hdigits]
    rfl

/-- A digit by itself is a number. -/
theorem Number.ofChars?_digit {c : Char} (h : c.isDigit = true) :
    ∃ n, Number.ofChars? [c] = some n := by
  have hrange : 48 ≤ c.toNat ∧ c.toNat ≤ 57 := Char.isDigit_iff_toNat.1 h
  have hread : Decimal.toInt? [c] = some (Int.ofNat (c.toNat - 48)) := by
    have hdigits : Decimal.toNat? [c] = some (c.toNat - 48) := by
      simp [Decimal.toNat?, h, Nat.ofDigitChars_cons]
    -- a digit is no sign
    rw [Decimal.toInt?, hdigits]
    · rfl
    · rintro digits ⟨⟩
      cases h
    · rintro digits ⟨⟩
      cases h
  have hinside : -9223372036854775808 ≤ Int.ofNat (c.toNat - 48) ∧
      Int.ofNat (c.toNat - 48) ≤ 9223372036854775807 := by
    rw [Int.ofNat_eq_natCast]
    omega
  rw [Number.ofChars?, hread, Option.bind_some, Number.ofInt?, dif_pos hinside]
  exact ⟨_, rfl⟩

namespace Value

/-- Whether a value can stand in a list: a number can, and so can a character that is neither a
comma nor blank nor a digit. -/
def isListable : Value → Bool
  | .number _ => true
  | .character c => c != ',' && !isBlank c && !c.isDigit
  | .empty => false

/-! ## One value -/

theorem toList_text_character (c : Char) : (character c).text.toList = [c] := by
  simp [text]

theorem toList_text_number (n : Number) : (number n).text.toList = n.chars :=
  String.toList_ofList

/-- The text of a value in a list is a word without commas. -/
theorem word_of_isListable {value : Value} (h : value.isListable = true) :
    value.text.toList ≠ [] ∧ ∀ c ∈ value.text.toList, isBlank c = false ∧ c ≠ ',' := by
  cases value with
  | number n =>
    rw [toList_text_number]
    refine ⟨n.plain_chars.ne_nil, fun c hc => ⟨(n.plain_chars.chars c hc).1, ?_⟩⟩
    rintro rfl
    rcases Number.mem_chars hc with heq | hdigit
    · cases heq
    · cases hdigit
  | character c =>
    simp only [isListable, Bool.and_eq_true, bne_iff_ne, Bool.not_eq_true'] at h
    rw [toList_text_character]
    refine ⟨by simp, fun d hd => ?_⟩
    rw [List.mem_singleton.1 hd]
    exact ⟨h.1.2, h.1.1⟩
  | empty => cases h

theorem ofWord?_text {value : Value} (h : value.isListable = true) :
    ofWord? value.text.toList = some value := by
  unfold ofWord?
  cases value with
  | number n => rw [toList_text_number, Number.ofChars?_chars]
  | character c =>
    simp only [isListable, Bool.and_eq_true, Bool.not_eq_true'] at h
    rw [toList_text_character, Number.ofChars?_singleton h.2]
  | empty => cases h

/-! ## Lists -/

/-- The words of a list of values. -/
def listWords (values : List Value) : List (List Char) :=
  values.map fun value => value.text.toList

theorem ofWords_listWords {values : List Value}
    (h : ∀ value ∈ values, value.isListable = true) : ofWords (listWords values) = .ok values := by
  induction values with
  | nil => rfl
  | cons value rest ih =>
    obtain ⟨hvalue, hrest⟩ := List.forall_mem_cons.1 h
    show ofWords (value.text.toList :: listWords rest) = _
    rw [ofWords, ofWord?_text hvalue, ih hrest]
    rfl

/-- Commas with a space after each are commas, and the space belongs to the next word. -/
theorem intercalate_comma_space (word : List Char) (rest : List (List Char)) :
    [',', ' '].intercalate (word :: rest) = [','].intercalate (word :: rest.map (' ' :: ·)) := by
  induction rest generalizing word with
  | nil => rfl
  | cons next rest ih =>
    rw [List.map_cons, List.intercalate_cons_cons, List.intercalate_cons_cons, ih next]
    cases rest with
    | nil => simp
    | cons later rest => simp [List.intercalate_cons_cons]

/-- **The words of a list of values are what is left between its commas.** -/
theorem splitOn_listText {value : Value} {rest : List Value}
    (h : ∀ other ∈ value :: rest, other.isListable = true) :
    ((listText (value :: rest)).toList.splitOn ',').map trim = listWords (value :: rest) := by
  have hword : ∀ {other}, other ∈ value :: rest →
      ∀ c ∈ other.text.toList, isBlank c = false ∧ c ≠ ',' := fun hmem =>
    (word_of_isListable (h _ hmem)).2
  have htext : (listText (value :: rest)).toList = [','].intercalate
      (value.text.toList :: (listWords rest).map (' ' :: ·)) := by
    rw [listText, String.toList_intercalate, ← intercalate_comma_space, List.map_map]
    rfl
  have hcomma : ∀ piece ∈ value.text.toList :: (listWords rest).map (' ' :: ·), ',' ∉ piece := by
    intro piece hpiece hmem
    rcases List.mem_cons.1 hpiece with rfl | hpiece
    · exact (hword List.mem_cons_self _ hmem).2 rfl
    · obtain ⟨word, hin, rfl⟩ := List.mem_map.1 hpiece
      obtain ⟨other, hother, rfl⟩ := List.mem_map.1 hin
      rcases List.mem_cons.1 hmem with heq | hmem
      · cases heq
      · exact (hword (List.mem_cons_of_mem _ hother) _ hmem).2 rfl
  have htrim : ∀ {other}, other ∈ value :: rest → trim other.text.toList = other.text.toList :=
    fun hmem => trim_of_tight (tight_of_forall fun c hc => (hword hmem c hc).1)
  rw [htext, List.splitOn_intercalate _ hcomma (by simp), List.map_cons, htrim List.mem_cons_self]
  show _ :: _ = _ :: listWords rest
  rw [List.map_map, listWords, List.map_map]
  refine congrArg _ (List.map_congr_left fun other hother => ?_)
  show trim (' ' :: other.text.toList) = other.text.toList
  rw [trim_cons_of_blank (by decide), htrim (List.mem_cons_of_mem _ hother)]

/-- **A list of such values is read back from its text.** -/
theorem listOfText_listText {values : List Value}
    (h : ∀ value ∈ values, value.isListable = true) : listOfText (listText values) = .ok values := by
  cases values with
  | nil => rfl
  | cons value rest =>
    obtain ⟨hne, hblank⟩ := word_of_isListable (h value List.mem_cons_self)
    obtain ⟨c, tail, hfirst⟩ := List.exists_cons_of_ne_nil hne
    -- the text begins with the first word, so it is not blank
    obtain ⟨more, hmore⟩ : ∃ more, (listText (value :: rest)).toList = c :: more := by
      rw [listText, String.toList_intercalate, List.map_cons, List.map_cons, hfirst]
      cases rest with
      | nil => exact ⟨_, rfl⟩
      | cons next rest => exact ⟨_, rfl⟩
    have hc : isBlank c = false := (hblank c (by simp [hfirst])).1
    unfold listOfText
    rw [hmore, trim_cons_of_not_blank hc, ← hmore, splitOn_listText h, ofWords_listWords h]
    rfl

/-! ## What can be read -/

theorem isListable_of_ofWord? {word : List Char} {value : Value} (htight : Tight word)
    (hcomma : ',' ∉ word) (h : ofWord? word = some value) : value.isListable = true := by
  unfold ofWord? at h
  split at h
  · cases h
    rfl
  · rename_i hnumber
    split at h
    · rename_i c
      cases h
      have hblank : isBlank c = false := htight.head c rfl
      have hdigit : c.isDigit = false := by
        by_contra hdigit
        obtain ⟨n, hn⟩ := Number.ofChars?_digit (Bool.not_eq_false _ ▸ hdigit)
        rw [hnumber] at hn
        cases hn
      have hother : c ≠ ',' := by
        rintro rfl
        exact hcomma (by simp)
      simp [isListable, hblank, hdigit, hother]
    · cases h

theorem isListable_of_ofWords {words : List (List Char)} {values : List Value}
    (hwords : ∀ word ∈ words, Tight word ∧ ',' ∉ word) (h : ofWords words = .ok values) :
    ∀ value ∈ values, value.isListable = true := by
  induction words generalizing values with
  | nil =>
    cases h
    simp
  | cons word rest ih =>
    obtain ⟨⟨htight, hcomma⟩, hrest⟩ := List.forall_mem_cons.1 hwords
    rw [ofWords] at h
    split at h
    · cases h
    · rename_i value hvalue
      obtain ⟨later, hlater, h⟩ := bind_eq_ok h
      cases h
      exact List.forall_mem_cons.2 ⟨isListable_of_ofWord? htight hcomma hvalue, ih hrest hlater⟩

/-- **Whatever is read is a list of values that can stand in one.** -/
theorem isListable_of_listOfText {text : String} {values : List Value}
    (h : listOfText text = .ok values) : ∀ value ∈ values, value.isListable = true := by
  unfold listOfText at h
  split at h
  · cases h
    simp
  · refine isListable_of_ofWords ?_ h
    intro word hword
    obtain ⟨piece, hpiece, rfl⟩ := List.mem_map.1 hword
    refine ⟨tight_trim piece, fun hmem => ?_⟩
    exact not_mem_of_mem_splitOn hpiece (mem_of_mem_trim hmem)

/-- **A list of values is read back from its text exactly when each value can stand in a list**, and
every list that is read from a text is such a list. -/
theorem listOfText_listText_iff (values : List Value) :
    (listOfText (listText values) = .ok values ↔ ∀ value ∈ values, value.isListable = true) ∧
    ∀ text, listOfText text = .ok values →
      (∀ value ∈ values, value.isListable = true) ∧ listOfText (listText values) = .ok values := by
  refine ⟨⟨isListable_of_listOfText, listOfText_listText⟩, fun text htext => ?_⟩
  have hlistable := isListable_of_listOfText htext
  exact ⟨hlistable, listOfText_listText hlistable⟩

theorem listOfText_listText_iff_signs :
    ¬ listOfText (listText [number Number.zero, character '7']) =
      .ok [number Number.zero, character '7'] ∧
    listOfText " +0,-,\n-1" = .ok [number Number.zero, character '-', number Number.minusOne] ∧
    (∀ value ∈ [number Number.zero, character '-', number Number.minusOne],
      value.isListable = true) ∧
    listOfText (listText [number Number.zero, character '-', number Number.minusOne]) =
      .ok [number Number.zero, character '-', number Number.minusOne] := by
  have hread : listOfText " +0,-,\n-1" =
      .ok [number Number.zero, character '-', number Number.minusOne] := by decide +kernel
  have hdigit : ¬ ∀ value ∈ [number Number.zero, character '7'], value.isListable = true := by
    decide
  exact ⟨(listOfText_listText_iff _).1.not.2 hdigit, hread, (listOfText_listText_iff _).2 _ hread⟩

end Value

end Clerk
