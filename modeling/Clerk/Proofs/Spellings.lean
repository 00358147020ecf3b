import Clerk.Proofs.OpText

/-!
# Spellings

Which texts are read as a number, an address or an operation.  An operation has one spelling that is
written and many that are read: a keyword in any case, a sign or zeros before an index, blanks
around the words.  Everything else is refused.

* `Decimal.Spells`, `Address.Spelled`, `Op.Spelled` — the spellings, described apart from the
  readers;
* `Decimal.toInt?_eq_some_iff`, `Address.ofChars?_eq_some_iff`, `Op.ofChars_eq_ok_iff` — each reader
  accepts exactly these;
* `Op.reads_exactly` — operations and their spellings are inverse.
-/

set_option autoImplicit false

namespace Clerk

open Text

/-! ## Numbers -/

namespace Decimal

/-- One or more digits, and the number they are read as. -/
structure Digits (s : List Char) (n : Nat) : Prop where
  ne_nil : s ≠ []
  isDigit : ∀ c ∈ s, c.isDigit = true
  value : Nat.ofDigitChars 10 s 0 = n

/-- The spellings of an integer: digits, with or without a sign before them. -/
inductive Spells : List Char → Int → Prop
  | unsigned {s : List Char} {n : Nat} (h : Digits s n) : Spells s n
  | plus {s : List Char} {n : Nat} (h : Digits s n) : Spells ('+' :: s) n
  | minus {s : List Char} {n : Nat} (h : Digits s n) : Spells ('-' :: s) (-n)

theorem toNat?_eq_some_iff {s : List Char} {n : Nat} : toNat? s = some n ↔ Digits s n := by
  have hcheck : (!s.isEmpty && s.all Char.isDigit) = true ↔
      s ≠ [] ∧ ∀ c ∈ s, c.isDigit = true := by simp
  unfold toNat?
  split
  · rename_i h
    obtain ⟨hne, hdigits⟩ := hcheck.1 h
    exact ⟨fun heq => ⟨hne, hdigits, Option.some.inj heq⟩, fun hspelling => by rw [hspelling.value]⟩
  · rename_i h
    refine ⟨nofun, fun hspelling => ?_⟩
    exact absurd (hcheck.2 ⟨hspelling.ne_nil, hspelling.isDigit⟩) h

/-- Digits do not start with another character. -/
theorem Digits.ne_cons {s rest : List Char} {n : Nat} (h : Digits s n) {c : Char}
    (hc : c.isDigit = false) : s ≠ c :: rest := by
  rintro rfl
  rw [h.isDigit c (by simp)] at hc
  cases hc

/-- **An integer is read from its spellings and from nothing else.** -/
theorem toInt?_eq_some_iff {s : List Char} {n : Int} : toInt? s = some n ↔ Spells s n := by
  constructor
  · intro h
    unfold toInt? at h
    split at h
    all_goals
      obtain ⟨magnitude, hdigits, rfl⟩ := Option.map_eq_some_iff.1 h
      rw [toNat?_eq_some_iff] at hdigits
    · exact .minus hdigits
    · exact .plus hdigits
    · exact .unsigned hdigits
  · intro h
    cases h with
    | unsigned h =>
      rw [toInt?, toNat?_eq_some_iff.2 h]
      · rfl
      · exact fun _ => h.ne_cons (by decide)
      · exact fun _ => h.ne_cons (by decide)
    | plus h =>
      rw [toInt?, toNat?_eq_some_iff.2 h]
      rfl
    | minus h =>
      rw [toInt?, toNat?_eq_some_iff.2 h]
      rfl

/-- No spelling of an integer is in brackets. -/
theorem Spells.ne_bracket {s rest : List Char} {n : Int} (h : Spells s n) : s ≠ '[' :: rest := by
  cases h with
  | unsigned h => exact h.ne_cons (by decide)
  | plus h => simp
  | minus h => simp

end Decimal

theorem Number.ofChars?_eq_some_iff {s : List Char} {n : Number} :
    Number.ofChars? s = some n ↔ Decimal.Spells s n.val := by
  rw [← Decimal.toInt?_eq_some_iff, Number.ofChars?, Option.bind_eq_some_iff]
  constructor
  · rintro ⟨value, hvalue, hn⟩
    rw [hvalue, Number.val_of_ofInt? hn]
  · intro h
    exact ⟨n.val, h, n.ofInt?_val⟩

/-! ## Addresses -/

namespace Address

/-- The spellings of an address: those of its index, in brackets when it is indirect. -/
inductive Spelled : Address → List Char → Prop
  | direct {index : Number} {word : List Char} (h : Decimal.Spells word index.val) :
    Spelled (.direct index) word
  | indirect {index : Number} {word : List Char} (h : Decimal.Spells word index.val) :
    Spelled (.indirect index) ('[' :: (word ++ [']']))

/-- **An address is read from its spellings and from no other word.**  Blanks inside the brackets
would be allowed, but a word has none. -/
theorem ofChars?_eq_some_iff {address : Address} {word : List Char}
    (hblank : ∀ c ∈ word, isBlank c = false) :
    ofChars? word = some address ↔ address.Spelled word := by
  constructor
  · intro h
    unfold ofChars? at h
    split at h
    · rename_i rest
      split at h
      · rename_i hlast
        obtain ⟨inner, rfl⟩ := List.getLast?_eq_some_iff.1 hlast
        have htight : Tight inner := tight_of_forall fun c hc => hblank c (by simp [hc])
        rw [List.dropLast_concat, trim_of_tight htight] at h
        obtain ⟨index, hindex, rfl⟩ := Option.map_eq_some_iff.1 h
        exact .indirect (Number.ofChars?_eq_some_iff.1 hindex)
      · cases h
    · obtain ⟨index, hindex, rfl⟩ := Option.map_eq_some_iff.1 h
      exact .direct (Number.ofChars?_eq_some_iff.1 hindex)
  · intro h
    cases h with
    | direct h =>
      rw [ofChars?, Number.ofChars?_eq_some_iff.2 h]
      · rfl
      · exact fun _ => h.ne_bracket
    | @indirect index inner h =>
      have htight : Tight inner := tight_of_forall fun c hc => hblank c (by simp [hc])
      rw [ofChars?, if_pos (by simp), List.dropLast_concat, trim_of_tight htight,
        Number.ofChars?_eq_some_iff.2 h]
      rfl

theorem ofChars_eq_ok_iff {address : Address} {word : List Char} :
    ofChars word = .ok address ↔ ofChars? word = some address := by
  unfold ofChars
  split
  · rename_i found hfound
    rw [hfound, Except.ok.injEq, Option.some.injEq]
  · rename_i hnone
    rw [hnone]
    exact ⟨nofun, nofun⟩

end Address

/-! ## Operations -/

namespace Op

/-- The words that spell the operand of an operation: none, an address, or a label as it is. -/
inductive Operands : Op → List (List Char) → Prop
  | inbox : Operands .inbox []
  | outbox : Operands .outbox []
  | cell (kind : CellOp) {address : Address} {word : List Char} (h : address.Spelled word) :
    Operands (.cell kind address) [word]
  | jump (test : Option Test) (target : String) : Operands (.jump test target) [target.toList]

/-- The words that spell an operation: its keyword in any case, and its operand. -/
inductive Spelled (op : Op) : List (List Char) → Prop
  | intro {word : List Char} {operands : List (List Char)}
      (hword : sameLetters op.mnemonic.toList word = true) (hoperands : op.Operands operands) :
    Spelled op (word :: operands)

theorem spelled_cons_iff {op : Op} {word : List Char} {operands : List (List Char)} :
    op.Spelled (word :: operands) ↔
      Keyword.ofChars? word = some op.keyword ∧ op.Operands operands := by
  rw [Keyword.ofChars?_eq_some_iff]
  constructor
  · rintro ⟨hword, hoperands⟩
    exact ⟨hword, hoperands⟩
  · rintro ⟨hword, hoperands⟩
    exact .intro hword hoperands

theorem ofKeyword_eq_ok_iff {keyword : Keyword} {op : Op} :
    ofKeyword keyword = .ok op ↔ op.Writable ∧ keyword = op.keyword ∧ op.Operands [] := by
  constructor
  · intro h
    cases keyword with
    | inbox =>
      cases h
      exact ⟨nofun, rfl, .inbox⟩
    | outbox =>
      cases h
      exact ⟨nofun, rfl, .outbox⟩
    | cell kind => cases h
    | jump test => cases h
  · rintro ⟨-, rfl, h⟩
    cases h with
    | inbox => rfl
    | outbox => rfl

theorem ofOperand_eq_ok_iff {keyword : Keyword} {operand : List Char} {op : Op}
    (hblank : ∀ c ∈ operand, isBlank c = false) :
    ofOperand keyword operand = .ok op ↔
      op.Writable ∧ keyword = op.keyword ∧ op.Operands [operand] := by
  constructor
  · intro h
    cases keyword with
    | inbox => cases h
    | outbox => cases h
    | cell kind =>
      obtain ⟨address, haddress, h⟩ := bind_eq_ok h
      cases h
      rw [Address.ofChars_eq_ok_iff, Address.ofChars?_eq_some_iff hblank] at haddress
      exact ⟨nofun, rfl, .cell kind haddress⟩
    | jump test =>
      obtain ⟨target, htarget, h⟩ := bind_eq_ok h
      cases h
      obtain ⟨rfl, hvalid⟩ := Label.ofString_eq_ok_iff.1 htarget
      refine ⟨?_, rfl, ?_⟩
      · rintro name ⟨⟩
        exact hvalid
      · simpa using Operands.jump test (String.ofList operand)
  · rintro ⟨hwritable, rfl, h⟩
    cases h with
    | @cell kind address _ haddress =>
      rw [← Address.ofChars?_eq_some_iff hblank, ← Address.ofChars_eq_ok_iff] at haddress
      rw [keyword, ofOperand, haddress]
      rfl
    | jump test target =>
      have hvalid : Label.isValid target = true := hwritable target rfl
      rw [keyword, ofOperand, String.ofList_toList, Label.ofString_of_isValid hvalid]
      rfl

theorem ofWords_eq_ok_iff {words : List (List Char)} {op : Op}
    (hblank : ∀ word ∈ words, ∀ c ∈ word, isBlank c = false) :
    ofWords words = .ok op ↔ op.Writable ∧ op.Spelled words := by
  cases words with
  | nil =>
    have hnone : Keyword.ofChars? [] = none := by decide
    simp only [ofWords, List.headD_nil, hnone]
    constructor
    · intro h
      cases h
    · rintro ⟨-, h⟩
      cases h
  | cons word operands =>
    rw [spelled_cons_iff]
    simp only [ofWords, List.headD_cons, List.tail_cons]
    cases hword : Keyword.ofChars? word with
    | none => simp
    | some keyword =>
      rw [Option.some.injEq]
      cases operands with
      | nil => exact ofKeyword_eq_ok_iff
      | cons operand rest =>
        cases rest with
        | nil => exact ofOperand_eq_ok_iff (hblank operand (by simp))
        | cons extra rest =>
          -- no operation has two operands
          constructor
          · intro h
            cases h
          · rintro ⟨-, -, h⟩
            cases h

/-- **An operation is read from the lines whose words spell it, and from no other line.** -/
theorem ofChars_eq_ok_iff {line : List Char} {op : Op} :
    Op.ofChars line = .ok op ↔ op.Writable ∧ op.Spelled (words line) :=
  ofWords_eq_ok_iff fun _ hword => not_blank_of_mem_words hword

/-- **Operations and their spellings are inverse.**  An operation comes back from its own text
exactly when its target, if it has one, is a label.  The lines that are read as an operation are
those whose words spell it, and only an operation with such a target is ever read. -/
theorem reads_exactly (op : Op) :
    (Op.ofText op.text = .ok op ↔ op.Writable) ∧
    ∀ line : String, Op.ofText line = .ok op ↔ op.Writable ∧ op.Spelled (words line.toList) := by
  refine ⟨⟨fun h => ?_, op.ofChars_text⟩, fun line => ofChars_eq_ok_iff⟩
  exact (ofChars_eq_ok_iff.1 h).1

-- Small letters, a sign and zeros are read, and not written.
example : Op.ofText " bumpDn\t[+001]" = .ok (.cell .bumpDown (.indirect Number.one)) ∧
    (Op.cell .bumpDown (.indirect Number.one)).text = "BUMPDN\t[1]" := by decide +kernel

end Op

end Clerk
