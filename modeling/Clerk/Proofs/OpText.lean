import Clerk.Op.Reader
import Clerk.Proofs.Text

/-!
# Operations and their spelling

An operation is spelled with one or two words that a line of a listing can hold, and reading the
spelling gives the operation back.

* `Listing.Plain` — a word that a line can hold;
* `Address.ofChars?_text`, `Keyword.ofChars?_mnemonic` — operands and keywords are read back;
* `Op.ofChars_text` — so is every operation whose target is a label.
-/

set_option autoImplicit false

namespace Clerk

open Text

namespace Listing

/-! ## Words that a line can hold -/

/-- A word without blanks and colons in which no comment starts. -/
structure Plain (s : List Char) : Prop where
  ne_nil : s ≠ []
  chars : ∀ c ∈ s, isBlank c = false ∧ c ≠ ':'
  comment : hasComment s = false

theorem Plain.tight {s : List Char} (h : Plain s) : Tight s :=
  tight_of_forall fun c hc => (h.chars c hc).1

theorem Plain.newline {s : List Char} (h : Plain s) : '\n' ∉ s := by
  intro hmem
  have := (h.chars _ hmem).1
  rw [isBlank_newline] at this
  cases this

theorem hasComment_cons {c : Char} (h : c ≠ '-') (s : List Char) :
    hasComment (c :: s) = hasComment s := by
  rw [hasComment]
  intro rest heq
  exact absurd heq h

theorem hasComment_of_not_mem {s : List Char} (h : '-' ∉ s) : hasComment s = false := by
  induction s with
  | nil => rfl
  | cons c rest ih =>
    simp only [List.mem_cons, not_or] at h
    rw [hasComment_cons (Ne.symm h.1), ih h.2]

theorem hasComment_dash {s : List Char} (h : '-' ∉ s) : hasComment ('-' :: s) = false := by
  cases s with
  | nil => rfl
  | cons c rest =>
    have hc : c ≠ '-' := fun heq => h (by simp [heq])
    rw [hasComment]
    · exact hasComment_of_not_mem h
    · intro tail _ heq
      exact absurd (List.cons.inj heq).1 hc

/-- No comment starts at a place where none did when a character that is not a dash is put behind
the text. -/
theorem not_comment_append {c d : Char} {rest : List Char} (hc : c ≠ '-')
    (h : ∀ tail, d = '-' → rest = '-' :: tail → False) (s : List Char) :
    ∀ tail, d = '-' → rest ++ c :: s = '-' :: tail → False := by
  intro tail hdash heq
  cases rest with
  | nil => exact absurd (List.cons.inj heq).1 hc
  | cons e rest =>
    obtain ⟨rfl, -⟩ := List.cons.inj heq
    exact h rest hdash rfl

/-- No comment starts across a character that is not a dash. -/
theorem hasComment_append {a b : List Char} {c : Char} (hc : c ≠ '-')
    (ha : hasComment a = false) (hb : hasComment b = false) : hasComment (a ++ c :: b) = false := by
  fun_induction hasComment a with
  | case1 => rwa [List.nil_append, hasComment_cons hc]
  | case2 => cases ha
  | case3 d rest hne ih =>
    rw [List.cons_append, hasComment]
    · exact ih ha
    · exact not_comment_append hc hne b

theorem beforeComment_of_hasComment {s : List Char} (h : hasComment s = false) :
    beforeComment s = s := by
  fun_induction hasComment s with
  | case1 => rfl
  | case2 => cases h
  | case3 c rest hne ih =>
    rw [beforeComment, ih h]
    exact hne

theorem beforeComment_cons {c : Char} (h : c ≠ '-') (s : List Char) :
    beforeComment (c :: s) = c :: beforeComment s := by
  rw [beforeComment]
  intro rest heq
  exact absurd heq h

theorem beforeComment_append {a : List Char} (h : '-' ∉ a) (s : List Char) :
    beforeComment (a ++ s) = a ++ beforeComment s := by
  induction a with
  | nil => rfl
  | cons c rest ih =>
    simp only [List.mem_cons, not_or] at h
    rw [List.cons_append, beforeComment_cons (Ne.symm h.1), ih h.2]
    rfl

/-- A comment that starts before a character other than a dash starts there whatever follows. -/
theorem beforeComment_append_cons {c : Char} (hc : c ≠ '-') (a s : List Char) :
    beforeComment (a ++ c :: s) =
      if hasComment a then beforeComment a else a ++ c :: beforeComment s := by
  fun_induction hasComment a with
  | case1 => exact beforeComment_cons hc s
  | case2 => rfl
  | case3 d rest hne ih =>
    rw [List.cons_append, beforeComment, ih, beforeComment]
    · split <;> rfl
    · exact hne
    · exact not_comment_append hc hne s

/-- Only a line that starts with a `D` can open a metadata block. -/
theorem opensMetadata_of_head {c : Char} (h : c.toLower ≠ 'd') (s : List Char) :
    opensMetadata (c :: s) = false := by
  simp [opensMetadata, sameLetters, foldCase, h]

/-- The opening word does not go beyond a character that is none of its letters. -/
theorem opensMetadata_append_cons {c : Char} (hc : c.toLower ∉ ['d', 'e', 'f', 'i', 'n', 'e'])
    (a s : List Char) : opensMetadata (a ++ c :: s) = opensMetadata a := by
  by_cases hlength : 6 ≤ a.length
  · rw [opensMetadata, List.take_append_of_le_length hlength]
    rfl
  · have hword : foldCase ['D', 'E', 'F', 'I', 'N', 'E'] = ['d', 'e', 'f', 'i', 'n', 'e'] := by
      decide
    have hlong : opensMetadata (a ++ c :: s) = false := by
      simp only [opensMetadata, sameLetters, beq_eq_false_iff_ne, hword]
      intro heq
      apply hc
      rw [← heq, foldCase]
      refine List.mem_map_of_mem ?_
      rw [List.mem_take_iff_getElem]
      refine ⟨a.length, ?_, ?_⟩
      · rw [List.length_append, List.length_cons]
        omega
      · simp
    have hshort : opensMetadata a = false := by
      simp only [opensMetadata, sameLetters, beq_eq_false_iff_ne, hword]
      intro heq
      have := congrArg List.length heq
      simp only [foldCase, List.length_map, List.length_take, List.length_cons,
        List.length_nil] at this
      omega
    rw [hlong, hshort]

end Listing

open Listing

/-! ## Labels -/

theorem Label.plain_of_isValid {name : String} (h : Label.isValid name = true) :
    Plain name.toList := by
  simp only [Label.isValid, Label.isLabel, Bool.and_eq_true, Bool.not_eq_true',
    List.all_eq_true] at h
  obtain ⟨⟨⟨hne, hcomment⟩, -⟩, hchars⟩ := h
  refine ⟨List.isEmpty_eq_false_iff.1 hne, fun c hc => ?_, hcomment⟩
  have := hchars c hc
  simp only [Label.isLabelChar, Bool.not_eq_true', Bool.or_eq_false_iff] at this
  exact ⟨this.1.1.1, by simpa using this.1.1.2⟩

theorem Label.opensMetadata_of_isValid {name : String} (h : Label.isValid name = true) :
    opensMetadata name.toList = false := by
  simp only [Label.isValid, Label.isLabel, Bool.and_eq_true, Bool.not_eq_true'] at h
  exact h.1.2

theorem Label.ofString_eq_ok_iff {name label : String} :
    Label.ofString name = .ok label ↔ label = name ∧ Label.isValid name = true := by
  unfold Label.ofString
  split
  · rename_i hvalid
    exact ⟨fun h => ⟨(Except.ok.inj h).symm, hvalid⟩, fun h => by rw [h.1]⟩
  · rename_i hvalid
    exact ⟨nofun, fun h => absurd h.2 hvalid⟩

theorem Label.ofString_of_isValid {name : String} (h : Label.isValid name = true) :
    Label.ofString name = .ok name :=
  Label.ofString_eq_ok_iff.2 ⟨rfl, h⟩

/-! ## Numbers and addresses -/

theorem Number.mem_chars {n : Number} {c : Char} (h : c ∈ n.chars) :
    c = '-' ∨ c.isDigit = true := by
  unfold Number.chars Decimal.ofInt at h
  split at h
  · rcases List.mem_cons.1 h with rfl | h
    · exact Or.inl rfl
    · exact Or.inr (Decimal.isDigit_of_mem_ofNat h)
  · exact Or.inr (Decimal.isDigit_of_mem_ofNat h)

theorem Number.plain_chars (n : Number) : Plain n.chars := by
  refine ⟨?_, ?_, ?_⟩
  · unfold Number.chars Decimal.ofInt
    split <;> simp [Decimal.ofNat]
  · intro c hc
    rcases Number.mem_chars hc with rfl | hdigit
    · decide
    · refine ⟨not_blank_of_isDigit hdigit, ?_⟩
      rintro rfl
      cases hdigit
  · have hdigits : '-' ∉ Decimal.ofNat n.val.natAbs := fun hmem =>
      absurd (Decimal.isDigit_of_mem_ofNat hmem) (by decide)
    unfold Number.chars Decimal.ofInt
    split
    · exact hasComment_dash hdigits
    · exact hasComment_of_not_mem hdigits

theorem Address.toList_text (address : Address) : address.text.toList =
    match address with
    | .direct index => index.chars
    | .indirect index => '[' :: (index.chars ++ [']']) := by
  cases address with
  | direct index => simp [Address.text, Number.text]
  | indirect index => simp [Address.text, Number.text, String.toList_append]

theorem Address.ofChars?_text (address : Address) :
    Address.ofChars? address.text.toList = some address := by
  rw [Address.toList_text]
  cases address with
  | direct index =>
    have hhead : ∀ rest, index.chars ≠ '[' :: rest := by
      intro rest heq
      rcases Number.mem_chars (n := index) (c := '[') (by simp [heq]) with h | h
      · cases h
      · exact absurd h (by decide)
    simp only
    rw [Address.ofChars?, Number.ofChars?_chars, Option.map_some]
    exact fun rest => hhead rest
  | indirect index =>
    have htrim : trim index.chars = index.chars := trim_of_tight index.plain_chars.tight
    simp [Address.ofChars?, htrim, Number.ofChars?_chars]

theorem Address.plain_text (address : Address) : Plain address.text.toList := by
  rw [Address.toList_text]
  cases address with
  | direct index => exact index.plain_chars
  | indirect index =>
    have hindex := index.plain_chars
    refine ⟨by simp, ?_, ?_⟩
    · intro c hc
      simp only [List.mem_cons, List.mem_append, List.not_mem_nil, or_false] at hc
      rcases hc with rfl | hc | rfl
      · decide
      · exact hindex.chars c hc
      · decide
    · rw [hasComment_cons (by decide)]
      exact hasComment_append (by decide) hindex.comment rfl

/-! ## Keywords and operations -/

theorem Keyword.ofChars?_mnemonic (keyword : Keyword) :
    Keyword.ofChars? keyword.mnemonic.toList = some keyword := by
  have hall : ∀ keyword ∈ Keyword.all,
      Keyword.ofChars? keyword.mnemonic.toList = some keyword := by decide
  exact hall keyword keyword.mem_all

theorem Keyword.ofChars?_eq_of_sameLetters {s t : List Char} (h : sameLetters s t = true) :
    Keyword.ofChars? s = Keyword.ofChars? t := by
  have hfold : foldCase s = foldCase t := by simpa [sameLetters] using h
  simp only [Keyword.ofChars?, sameLetters, hfold]

theorem Keyword.ofChars?_eq_some_iff {keyword : Keyword} {word : List Char} :
    Keyword.ofChars? word = some keyword ↔ sameLetters keyword.mnemonic.toList word = true := by
  refine ⟨List.find?_some, fun h => ?_⟩
  rw [← Keyword.ofChars?_eq_of_sameLetters h, Keyword.ofChars?_mnemonic]

theorem Keyword.mnemonic_chars (keyword : Keyword) :
    keyword.mnemonic.toList ≠ [] ∧ (∀ c ∈ keyword.mnemonic.toList, isBlank c = false ∧ c ≠ ':') ∧
      hasComment keyword.mnemonic.toList = false := by
  -- `List.all` keeps the evaluation to the characters of the word
  have hall : ∀ keyword ∈ Keyword.all, keyword.mnemonic.toList ≠ [] ∧
      (keyword.mnemonic.toList.all fun c => !isBlank c && c != ':') = true ∧
        hasComment keyword.mnemonic.toList = false := by decide
  obtain ⟨hne, hchars, hcomment⟩ := hall keyword keyword.mem_all
  refine ⟨hne, fun c hmem => ?_, hcomment⟩
  simpa using List.all_eq_true.1 hchars c hmem

theorem Keyword.plain_mnemonic (keyword : Keyword) : Plain keyword.mnemonic.toList :=
  ⟨keyword.mnemonic_chars.1, keyword.mnemonic_chars.2.1, keyword.mnemonic_chars.2.2⟩

/-- No keyword starts with a `D`. -/
theorem Keyword.head_mnemonic (keyword : Keyword) :
    ∃ c rest, keyword.mnemonic.toList = c :: rest ∧ c.toLower ≠ 'd' := by
  have hall : ∀ keyword ∈ Keyword.all,
      (keyword.mnemonic.toList.head?.map Char.toLower) ≠ some 'd' := by decide
  obtain ⟨c, rest, heq⟩ := List.exists_cons_of_ne_nil keyword.plain_mnemonic.ne_nil
  refine ⟨c, rest, heq, ?_⟩
  have := hall keyword keyword.mem_all
  rw [heq] at this
  simpa using this

namespace Op

/-- The operation can be written: the target of a jump is a label. -/
def Writable (op : Op) : Prop :=
  ∀ target, op.target? = some target → Label.isValid target = true

/-- The spelling is the keyword alone, or the keyword, a tab and a word. -/
theorem toList_text (op : Op) (h : op.Writable) :
    (op.operand? = none ∧ op.text.toList = op.mnemonic.toList) ∨
      ∃ operand, op.operand? = some operand ∧ Plain operand.toList ∧
        op.text.toList = op.mnemonic.toList ++ '\t' :: operand.toList := by
  cases op with
  | inbox => exact Or.inl ⟨rfl, rfl⟩
  | outbox => exact Or.inl ⟨rfl, rfl⟩
  | cell kind address =>
    refine Or.inr ⟨address.text, rfl, address.plain_text, ?_⟩
    simp [text, operand?, String.toList_append]
  | jump test target =>
    refine Or.inr ⟨target, rfl, Label.plain_of_isValid (h target rfl), ?_⟩
    simp [text, operand?, String.toList_append]

/-- **An operation is read back from its spelling.** -/
theorem ofChars_text (op : Op) (h : op.Writable) : Op.ofChars op.text.toList = .ok op := by
  have hword : Plain op.mnemonic.toList := op.keyword.plain_mnemonic
  have hblank : ∀ c ∈ op.mnemonic.toList, isBlank c = false := fun c hc => (hword.chars c hc).1
  unfold Op.ofChars
  rcases op.toList_text h with ⟨hnone, htext⟩ | ⟨operand, hsome, hplain, htext⟩
  · rw [htext, words_singleton hword.ne_nil hblank]
    simp only [ofWords, List.headD_cons, List.tail_cons, mnemonic, Keyword.ofChars?_mnemonic]
    cases op with
    | inbox => rfl
    | outbox => rfl
    | cell kind address => cases hnone
    | jump test target => cases hnone
  · rw [htext, words_pair hword.ne_nil hblank hplain.ne_nil (fun c hc => (hplain.chars c hc).1)
      isBlank_tab]
    simp only [ofWords, List.headD_cons, List.tail_cons, mnemonic, Keyword.ofChars?_mnemonic]
    cases op with
    | inbox => cases hsome
    | outbox => cases hsome
    | cell kind address =>
      cases hsome
      simp only [keyword, ofOperand, Address.ofChars, Address.ofChars?_text]
      rfl
    | jump test target =>
      cases hsome
      simp only [keyword, ofOperand, String.ofList_toList, Label.ofString_of_isValid (h _ rfl)]
      rfl

end Op

end Clerk
