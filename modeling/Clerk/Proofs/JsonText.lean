import Clerk.Json.Shape
import Clerk.Json.Writer
import Clerk.Proofs.Text
import Mathlib.Data.List.Forall2

/-!
# Reading written JSON

What was written is cut back into the tokens it was made of, and these are cut at the commas where
items were joined.

* `Json.assemble_map_pieceOf` — the pieces of a quoted text are put together again;
* `Json.ReadsTo` — a text that is cut into given tokens, whatever follows that ends a number;
* `Json.readsTo_enclosed` — items between two brackets, in either layout;
* `Json.readsTo_compactObject`, `Json.readsTo_indentedObject`, `Value.readsTo_json` — objects on one
  line and on several, and values;
* `Json.KeptFrom` — tokens without a comma to cut at;
* `Json.items_intercalate` — items that were joined by commas are found again;
* `Json.objectTokens_inj` — the tokens of an object tell its members.
-/

set_option autoImplicit false

namespace Clerk.Json

/-! ## Quoted strings -/

/-- The three ways of writing a character, each with the piece that is read back. -/
inductive Spelling (c : Char) : List Char → Piece → Prop
  | short {e : Char} (h : shortEscape? e = some c) : Spelling c ['\\', e] (.char c)
  | numbered (h : c.toNat < 0x20) :
    Spelling c ['\\', 'u', '0', '0', Nat.digitChar (c.toNat / 16), Nat.digitChar (c.toNat % 16)]
      (.unit c.toNat)
  | plain (hquote : c ≠ '"') (hslash : c ≠ '\\') (hcontrol : ¬ c.toNat < 0x20) :
    Spelling c [c] (.char c)

/-- The piece that a character is read back as.  Six characters are those of a number. -/
def pieceOf (c : Char) : Piece :=
  if (escapeChar c).length = 6 then .unit c.toNat else .char c

theorem spelling_escapeChar (c : Char) : Spelling c (escapeChar c) (pieceOf c) := by
  have hshort : ∀ (n : Nat) (e : Char), c.toNat = n → shortEscape? e = some (Char.ofNat n) →
      Spelling c ['\\', e] (.char c) := by
    rintro n e rfl h
    rw [Char.ofNat_toNat] at h
    exact .short h
  unfold pieceOf escapeChar
  by_cases hquote : c = '"'
  · rw [if_pos hquote]
    exact hshort 0x22 '"' (by rw [hquote]; rfl) rfl
  rw [if_neg hquote]
  by_cases hslash : c = '\\'
  · rw [if_pos hslash]
    exact hshort 0x5C '\\' (by rw [hslash]; rfl) rfl
  rw [if_neg hslash]
  by_cases hbackspace : c.toNat = 0x08
  · rw [if_pos hbackspace]
    exact hshort 0x08 'b' hbackspace rfl
  rw [if_neg hbackspace]
  by_cases htab : c.toNat = 0x09
  · rw [if_pos htab]
    exact hshort 0x09 't' htab rfl
  rw [if_neg htab]
  by_cases hnewline : c.toNat = 0x0A
  · rw [if_pos hnewline]
    exact hshort 0x0A 'n' hnewline rfl
  rw [if_neg hnewline]
  by_cases hfeed : c.toNat = 0x0C
  · rw [if_pos hfeed]
    exact hshort 0x0C 'f' hfeed rfl
  rw [if_neg hfeed]
  by_cases hreturn : c.toNat = 0x0D
  · rw [if_pos hreturn]
    exact hshort 0x0D 'r' hreturn rfl
  rw [if_neg hreturn]
  by_cases hcontrol : c.toNat < 0x20
  · rw [if_pos hcontrol]
    exact .numbered hcontrol
  · rw [if_neg hcontrol]
    exact .plain hquote hslash hcontrol

theorem hexDigit?_digitChar : ∀ n, n < 16 → hexDigit? (Nat.digitChar n) = some n := by
  decide

theorem hex4?_control {n : Nat} (h : n < 0x20) :
    hex4? '0' '0' (Nat.digitChar (n / 16)) (Nat.digitChar (n % 16)) = some n := by
  have hhigh := hexDigit?_digitChar (n / 16) (by omega)
  have hlow := hexDigit?_digitChar (n % 16) (by omega)
  have hzero : hexDigit? '0' = some 0 := by decide
  simp [hex4?, hhigh, hlow, hzero]
  omega

theorem pieces_short {e c : Char} (h : shortEscape? e = some c) (rest : List Char) :
    pieces ('\\' :: e :: rest) =
      (pieces rest).map fun found => (.char c :: found.1, found.2) := by
  have hne : e ≠ 'u' := by
    rintro rfl
    cases h
  rw [pieces]
  · rw [h]
    cases pieces rest <;> rfl
  · exact fun _ _ _ _ _ he => absurd he hne

theorem pieces_numbered {n : Nat} (h : n < 0x20) (rest : List Char) :
    pieces ('\\' :: 'u' :: '0' :: '0' :: Nat.digitChar (n / 16) :: Nat.digitChar (n % 16) :: rest) =
      (pieces rest).map fun found => (.unit n :: found.1, found.2) := by
  rw [pieces, hex4?_control h]
  cases pieces rest <;> rfl

theorem pieces_plain {c : Char} (hquote : c ≠ '"') (hslash : c ≠ '\\') (hcontrol : ¬ c.toNat < 0x20)
    (rest : List Char) :
    pieces (c :: rest) = (pieces rest).map fun found => (.char c :: found.1, found.2) := by
  rw [pieces]
  · rw [if_neg hcontrol]
    cases pieces rest <;> rfl
  · exact hquote
  · exact fun _ _ _ _ _ he => absurd he hslash
  · exact fun _ _ he => absurd he hslash

theorem pieces_escapeChar (c : Char) (rest : List Char) :
    pieces (escapeChar c ++ rest) =
      (pieces rest).map fun found => (pieceOf c :: found.1, found.2) := by
  have hspelling := spelling_escapeChar c
  generalize escapeChar c = text, pieceOf c = piece at hspelling ⊢
  cases hspelling with
  | short h => exact pieces_short h rest
  | numbered h => exact pieces_numbered h rest
  | plain hquote hslash hcontrol => exact pieces_plain hquote hslash hcontrol rest

theorem pieces_escape (s rest : List Char) :
    pieces (escape s ++ '"' :: rest) = some (s.map pieceOf, rest) := by
  induction s with
  | nil => rw [escape, List.flatMap_nil, List.nil_append, pieces]; rfl
  | cons c s ih =>
    rw [escape] at ih ⊢
    rw [List.flatMap_cons, List.append_assoc, pieces_escapeChar, ih]
    rfl

/-- A code unit that is no surrogate stands for its own character. -/
theorem assemble_unit {code : Nat} (h : code < 0xD800) (rest : List Piece) :
    assemble (.unit code :: rest) = (assemble rest).map (Char.ofNat code :: ·) := by
  have hhigh : isHigh code = false := by simp [isHigh]; omega
  have hlow : isLow code = false := by simp [isLow]; omega
  cases rest with
  | nil => simp [assemble, hhigh, hlow]
  | cons piece rest => cases piece <;> simp [assemble, hhigh, hlow]

theorem assemble_pieceOf (c : Char) (rest : List Piece) :
    assemble (pieceOf c :: rest) = (assemble rest).map (c :: ·) := by
  have hspelling := spelling_escapeChar c
  generalize escapeChar c = text, pieceOf c = piece at hspelling ⊢
  cases hspelling with
  | short h => rw [assemble]
  | numbered h => rw [assemble_unit (by omega), Char.ofNat_toNat]
  | plain hquote hslash hcontrol => rw [assemble]

/-- The characters of a text are put together again. -/
theorem assemble_map_pieceOf (s : List Char) : assemble (s.map pieceOf) = some s := by
  induction s with
  | nil => rw [List.map_nil, assemble]
  | cons c s ih => rw [List.map_cons, assemble_pieceOf, ih]; rfl

theorem map_pieceOf_inj {s t : List Char} : s.map pieceOf = t.map pieceOf ↔ s = t := by
  refine ⟨fun h => ?_, congrArg _⟩
  have hsame := congrArg assemble h
  rw [assemble_map_pieceOf, assemble_map_pieceOf] at hsame
  exact Option.some.inj hsame

/-! ## Numbers -/

/-- Whether a number has come to its end before the character. -/
def endsNumber (c : Char) : Bool :=
  !c.isDigit && c != '.' && c != 'e' && c != 'E'

/-- A number that stands before the text does not go on into it. -/
def Breaks (rest : List Char) : Prop :=
  ∀ c, rest.head? = some c → endsNumber c = true

theorem breaks_nil : Breaks [] := by
  intro c hc
  cases hc

theorem breaks_cons {c : Char} (h : endsNumber c = true) (rest : List Char) :
    Breaks (c :: rest) := by
  rintro d ⟨⟩
  exact h

theorem eq_zero_of_head?_ofNat {n : Nat} (h : (Decimal.ofNat n).head? = some '0') : n = 0 := by
  unfold Decimal.ofNat at h
  induction n using Nat.strongRecOn with
  | ind n ih =>
    by_cases hlt : n < 10
    · have hdigit : ∀ m, m < 10 → Nat.digitChar m = '0' → m = 0 := by decide
      rw [Nat.toDigits_of_lt_base hlt] at h
      exact hdigit n hlt (Option.some.inj h)
    · rw [Nat.toDigits_of_base_le (by decide) (by omega),
        List.head?_append_of_ne_nil _ Nat.toDigits_ne_nil] at h
      have := ih (n / 10) (by omega) h
      omega

theorem digits?_ofNat (n : Nat) {rest : List Char} (h : Breaks rest) :
    digits? (Decimal.ofNat n ++ rest) = some (Decimal.ofNat n, rest) := by
  have hdigits : ∀ c ∈ Decimal.ofNat n, c.isDigit = true := fun c hc =>
    Decimal.isDigit_of_mem_ofNat hc
  have hne : Decimal.ofNat n ≠ [] := Nat.toDigits_ne_nil
  have hrest : rest.takeWhile Char.isDigit = [] ∧ rest.dropWhile Char.isDigit = rest := by
    cases rest with
    | nil => exact ⟨rfl, rfl⟩
    | cons c rest =>
      have hc := h c rfl
      simp only [endsNumber, Bool.and_eq_true, Bool.not_eq_true'] at hc
      simp [hc.1.1.1]
  rw [digits?, List.takeWhile_append_of_pos hdigits, List.dropWhile_append_of_pos hdigits,
    hrest.1, hrest.2, List.append_nil, if_neg (by simp [hne])]

theorem wholePart?_ofNat (n : Nat) {rest : List Char} (h : Breaks rest) :
    wholePart? (Decimal.ofNat n ++ rest) = some (n, rest) := by
  have hvalue : Nat.ofDigitChars 10 (Decimal.ofNat n) 0 = n :=
    Nat.ofDigitChars_toDigits (by decide) (by decide)
  rw [wholePart?, digits?_ofNat n h]
  split
  · -- only zero starts with a zero, and it has one digit
    rename_i digit digits _ heq
    simp only [Option.some.injEq, Prod.mk.injEq] at heq
    have hzero : n = 0 := eq_zero_of_head?_ofNat (by rw [heq.1]; rfl)
    rw [hzero] at heq
    cases heq.1
  · rename_i heq
    cases heq
    rw [hvalue]
  · rename_i heq
    cases heq

theorem fraction?_of_breaks {rest : List Char} (h : Breaks rest) :
    fraction? rest = some (false, rest) := by
  unfold fraction?
  split
  · cases h '.' rfl
  · rfl

theorem exponent?_of_breaks {rest : List Char} (h : Breaks rest) :
    exponent? rest = some (false, rest) := by
  unfold exponent?
  split
  · cases h 'e' rfl
  · cases h 'E' rfl
  · rfl

theorem unsigned?_ofNat (negative : Bool) (n : Nat) {rest : List Char} (h : Breaks rest) :
    unsigned? negative (Decimal.ofNat n ++ rest) = some (.integer negative n, rest) := by
  simp [unsigned?, wholePart?_ofNat n h, fraction?_of_breaks h, exponent?_of_breaks h]

theorem token?_of_isDigit {c : Char} (h : c.isDigit = true) (s : List Char) :
    token? (c :: s) = unsigned? false (c :: s) := by
  rw [token?]
  -- no other token starts with a digit
  all_goals
    rintro rest ⟨⟩
    cases h

/-! ## Tokens one after the other -/

theorem tokens_nil : tokens [] = some [] := by
  rw [tokens]
  rfl

theorem tokens_cons {c : Char} {s after : List Char} {token : Token} (hspace : isSpace c = false)
    (h : token? (c :: s) = some (token, after)) :
    tokens (c :: s) = (tokens after).map (token :: ·) := by
  have hdrop : (c :: s).dropWhile isSpace = c :: s := by simp [hspace]
  rw [tokens]
  split
  · rename_i heq
    rw [hdrop] at heq
    cases heq
  · rename_i heq
    rw [hdrop] at heq
    cases heq
    split
    · rename_i hnone
      rw [h] at hnone
      cases hnone
    · rename_i found hfound
      rw [h] at hfound
      cases hfound
      rfl

theorem tokens_space {c : Char} (h : isSpace c = true) (s : List Char) :
    tokens (c :: s) = tokens s := by
  have hdrop : (c :: s).dropWhile isSpace = s.dropWhile isSpace := by simp [h]
  rw [tokens.eq_def, hdrop, ← tokens.eq_def]

/-- The text is cut into the tokens, and reading goes on with what follows. -/
def ReadsTo (text : List Char) (found : List Token) : Prop :=
  ∀ rest, Breaks rest → tokens (text ++ rest) = (tokens rest).map (found ++ ·)

theorem ReadsTo.tokens {text : List Char} {found : List Token} (h : ReadsTo text found) :
    Json.tokens text = some found := by
  have := h [] breaks_nil
  rw [List.append_nil, tokens_nil] at this
  rw [this, Option.map_some, List.append_nil]

theorem readsTo_nil : ReadsTo [] [] := by
  intro rest _
  cases htokens : Json.tokens rest <;> simp [htokens]

/-- A character that is a token by itself, whatever follows. -/
structure Mark (c : Char) (token : Token) : Prop where
  space : isSpace c = false
  ends : endsNumber c = true
  alone : ∀ rest, token? (c :: rest) = some (token, rest)

theorem ReadsTo.mark {c : Char} {token : Token} {text : List Char} {found : List Token}
    (hmark : Mark c token) (h : ReadsTo text found) : ReadsTo (c :: text) (token :: found) := by
  intro rest hrest
  rw [List.cons_append, tokens_cons hmark.space (hmark.alone _), h rest hrest, Option.map_map]
  rfl

theorem readsTo_token {c : Char} {text : List Char} {token : Token} (hspace : isSpace c = false)
    (h : ∀ rest, Breaks rest → token? (c :: (text ++ rest)) = some (token, rest)) :
    ReadsTo (c :: text) [token] := by
  intro rest hrest
  rw [List.cons_append, tokens_cons hspace (h rest hrest)]
  rfl

theorem ReadsTo.append {c : Char} {text text' : List Char} {found found' : List Token}
    (h : ReadsTo text found) (hc : endsNumber c = true) (h' : ReadsTo (c :: text') found') :
    ReadsTo (text ++ c :: text') (found ++ found') := by
  intro rest hrest
  rw [List.append_assoc, h (c :: text' ++ rest) (breaks_cons hc _), h' rest hrest, Option.map_map]
  congr 1
  funext later
  simp

/-- Nothing but spaces between two tokens. -/
def Gap (s : List Char) : Prop :=
  ∀ c ∈ s, isSpace c = true

instance (s : List Char) : Decidable (Gap s) :=
  decidable_of_iff (s.all isSpace = true) List.all_eq_true

theorem ReadsTo.gap {gap text : List Char} {found : List Token} (hgap : Gap gap)
    (h : ReadsTo text found) : ReadsTo (gap ++ text) found := by
  induction gap with
  | nil => exact h
  | cons c gap ih =>
    obtain ⟨hc, hgap⟩ := List.forall_mem_cons.1 hgap
    intro rest hrest
    rw [List.cons_append, List.cons_append, tokens_space hc]
    exact ih hgap rest hrest

theorem endsNumber_of_isSpace {c : Char} (h : isSpace c = true) : endsNumber c = true := by
  simp only [isSpace, Bool.or_eq_true, beq_iff_eq] at h
  rcases h with ((rfl | rfl) | rfl) | rfl <;> decide

/-! ## What the writer writes -/

theorem readsTo_quoted (s : String) :
    ReadsTo (quoted s).toList [.string (s.toList.map pieceOf)] := by
  have htext : (quoted s).toList = '"' :: (escape s.toList ++ ['"']) := by
    simp [quoted, String.toList_append]
  rw [htext]
  refine readsTo_token (by decide) fun rest _ => ?_
  rw [List.append_assoc, List.singleton_append, token?, pieces_escape]
  rfl

theorem readsTo_null : ReadsTo "null".toList [.null] :=
  readsTo_token (by decide) fun _ _ => rfl

theorem not_isSpace_of_isDigit {c : Char} (h : c.isDigit = true) : isSpace c = false := by
  refine Bool.eq_false_iff.2 fun hspace => ?_
  simp only [isSpace, Bool.or_eq_true, beq_iff_eq] at hspace
  rcases hspace with ((rfl | rfl) | rfl) | rfl <;> cases h

theorem readsTo_ofNat (n : Nat) : ReadsTo (Decimal.ofNat n) [.integer false n] := by
  have hne : Decimal.ofNat n ≠ [] := Nat.toDigits_ne_nil
  obtain ⟨c, digits, htext⟩ := List.exists_cons_of_ne_nil hne
  have hdigit : c.isDigit = true := Decimal.isDigit_of_mem_ofNat (n := n) (by simp [htext])
  rw [htext]
  refine readsTo_token (not_isSpace_of_isDigit hdigit) fun rest hrest => ?_
  rw [token?_of_isDigit hdigit, ← List.cons_append, ← htext]
  exact unsigned?_ofNat false n hrest

theorem readsTo_decimal (n : Nat) : ReadsTo (Decimal.text n).toList [.integer false n] := by
  have htext : (Decimal.text n).toList = Decimal.ofNat n := String.toList_ofList
  rw [htext]
  exact readsTo_ofNat n

theorem readsTo_ofInt (n : Int) :
    ReadsTo (Decimal.ofInt n) [.integer (decide (n < 0)) n.natAbs] := by
  unfold Decimal.ofInt
  split
  · rename_i hneg
    rw [decide_eq_true hneg]
    refine readsTo_token (by decide) fun rest hrest => ?_
    rw [token?]
    exact unsigned?_ofNat true n.natAbs hrest
  · rename_i hneg
    rw [decide_eq_false hneg]
    exact readsTo_ofNat n.natAbs

/-- The tokens of a list with the given items. -/
def listTokens (items : List (List Token)) : List Token :=
  .openBracket :: ([.comma].intercalate items ++ [.closeBracket])

/-- The tokens of a member of an object. -/
def memberTokens (key : String) (value : List Token) : List Token :=
  .string (key.toList.map pieceOf) :: .colon :: value

/-- The tokens of an object with the given members. -/
def objectTokens (members : List (String × List Token)) : List Token :=
  .openBrace ::
    ([.comma].intercalate (members.map fun member => memberTokens member.1 member.2) ++
      [.closeBrace])

theorem mark_comma : Mark ',' .comma :=
  ⟨by decide, by decide, fun _ => rfl⟩

/-- Texts that are joined by commas, with spaces behind these, and closed by what ends a number. -/
theorem readsTo_intercalate {gap : List Char} {texts : List (List Char)}
    {found : List (List Token)} {c : Char} {text : List Char} {tail : List Token} (hgap : Gap gap)
    (h : List.Forall₂ ReadsTo texts found) (hc : endsNumber c = true)
    (htail : ReadsTo (c :: text) tail) :
    ReadsTo ((',' :: gap).intercalate texts ++ c :: text)
      ([.comma].intercalate found ++ tail) := by
  induction h with
  | nil => exact htail
  | @cons first firstFound texts found hfirst hrest ih =>
    cases hrest with
    | nil =>
      rw [List.intercalate_singleton, List.intercalate_singleton]
      exact hfirst.append hc htail
    | cons _ _ =>
      rw [List.intercalate_cons_cons, List.intercalate_cons_cons]
      simp only [List.append_assoc, List.cons_append] at ih ⊢
      exact hfirst.append mark_comma.ends ((ih.gap hgap).mark mark_comma)

/-- **Items between two brackets.**  The gap stands behind the opening bracket and behind each
comma, the ending before the closing bracket; on one line both are empty. -/
theorem readsTo_enclosed {o c : Char} {opening closing : Token} {gap ending : List Char}
    {texts : List (List Char)} {found : List (List Token)} (hopening : Mark o opening)
    (hclosing : Mark c closing) (hgap : Gap gap) (hending : Gap ending)
    (h : List.Forall₂ ReadsTo texts found) :
    ReadsTo (o :: (gap ++ ((',' :: gap).intercalate texts ++ (ending ++ [c]))))
      (opening :: ([.comma].intercalate found ++ [closing])) := by
  have htail : ReadsTo (ending ++ [c]) [closing] := (readsTo_nil.mark hclosing).gap hending
  refine ReadsTo.mark hopening (ReadsTo.gap hgap ?_)
  cases ending with
  | nil => exact readsTo_intercalate hgap h hclosing.ends htail
  | cons space ending =>
    have hspace : isSpace space = true := hending space (by simp)
    exact readsTo_intercalate hgap h (endsNumber_of_isSpace hspace) htail

/-- Members are read as they were written, in any layout in which one of them is. -/
theorem forall₂_members {write : String → String → String}
    (hwrite : ∀ {key value : String} {found : List Token}, ReadsTo value.toList found →
      ReadsTo (write key value).toList (memberTokens key found))
    {members : List (String × String)} {found : List (String × List Token)}
    (h : List.Forall₂ (fun member kept => member.1 = kept.1 ∧ ReadsTo member.2.toList kept.2)
      members found) :
    List.Forall₂ ReadsTo (members.map fun member => (write member.1 member.2).toList)
      (found.map fun member => memberTokens member.1 member.2) := by
  rw [List.forall₂_map_left_iff, List.forall₂_map_right_iff]
  refine h.imp ?_
  rintro ⟨key, value⟩ ⟨_, kept⟩ ⟨rfl, hvalue⟩
  exact hwrite hvalue

theorem mark_openBracket : Mark '[' .openBracket :=
  ⟨by decide, by decide, fun _ => rfl⟩

theorem mark_closeBracket : Mark ']' .closeBracket :=
  ⟨by decide, by decide, fun _ => rfl⟩

theorem mark_openBrace : Mark '\x7b' .openBrace :=
  ⟨by decide, by decide, fun _ => rfl⟩

theorem mark_closeBrace : Mark '\x7d' .closeBrace :=
  ⟨by decide, by decide, fun _ => rfl⟩

theorem mark_colon : Mark ':' .colon :=
  ⟨by decide, by decide, fun _ => rfl⟩

/-! ### On one line -/

theorem readsTo_compactList {items : List String} {found : List (List Token)}
    (h : List.Forall₂ (fun item => ReadsTo item.toList) items found) :
    ReadsTo (compactList items).toList (listTokens found) := by
  have htext : (compactList items).toList =
      '[' :: ([] ++ ([','].intercalate (items.map String.toList) ++ ([] ++ [']']))) := by
    simp [compactList, String.toList_append, String.toList_intercalate]
  rw [htext]
  exact readsTo_enclosed mark_openBracket mark_closeBracket nofun nofun
    (List.forall₂_map_left_iff.2 h)

theorem readsTo_compactMember {key value : String} {found : List Token}
    (h : ReadsTo value.toList found) :
    ReadsTo (compactMember key value).toList (memberTokens key found) := by
  have htext : (compactMember key value).toList = (quoted key).toList ++ ':' :: value.toList := by
    simp [compactMember, String.toList_append]
  rw [htext]
  exact (readsTo_quoted key).append mark_colon.ends (h.mark mark_colon)

theorem readsTo_compactObject {members : List (String × String)}
    {found : List (String × List Token)}
    (h : List.Forall₂ (fun member kept => member.1 = kept.1 ∧ ReadsTo member.2.toList kept.2)
      members found) :
    ReadsTo (compactObject members).toList (objectTokens found) := by
  have htext : (compactObject members).toList = '\x7b' :: ([] ++
      ([','].intercalate (members.map fun member => (compactMember member.1 member.2).toList)
        ++ ([] ++ ['\x7d']))) := by
    simp [compactObject, String.toList_append, String.toList_intercalate, Function.comp_def]
  rw [htext]
  exact readsTo_enclosed mark_openBrace mark_closeBrace nofun nofun
    (forall₂_members readsTo_compactMember h)

/-! ### On several lines -/

theorem readsTo_indentedList {items : List String} {found : List (List Token)}
    (h : List.Forall₂ (fun item => ReadsTo item.toList) items found) :
    ReadsTo (indentedList items).toList (listTokens found) := by
  cases h with
  | nil => exact (readsTo_nil.mark mark_closeBracket).mark mark_openBracket
  | @cons item first items found hitem hitems =>
    have htext : (indentedList (item :: items)).toList = '[' :: (['\n'] ++
        ([',', '\n'].intercalate
            ((item :: items).map fun item => [' ', ' ', ' ', ' '] ++ item.toList)
          ++ (['\n', ' ', ' '] ++ [']']))) := by
      simp [indentedList, String.toList_append, String.toList_intercalate, Function.comp_def]
    rw [htext]
    refine readsTo_enclosed mark_openBracket mark_closeBracket (by decide) (by decide) ?_
    rw [List.forall₂_map_left_iff]
    have hgap : Gap [' ', ' ', ' ', ' '] := by decide
    exact .cons (hitem.gap hgap) (hitems.imp fun _ _ hread => hread.gap hgap)

theorem readsTo_indentedMember {key value : String} {found : List Token}
    (h : ReadsTo value.toList found) :
    ReadsTo (indentedMember key value).toList (memberTokens key found) := by
  have htext : (indentedMember key value).toList =
      [' ', ' '] ++ ((quoted key).toList ++ ':' :: ([' '] ++ value.toList)) := by
    simp [indentedMember, String.toList_append]
  have hvalue : ReadsTo (':' :: ([' '] ++ value.toList)) (.colon :: found) :=
    (h.gap (by decide)).mark mark_colon
  rw [htext]
  exact ((readsTo_quoted key).append mark_colon.ends hvalue).gap (by decide)

theorem readsTo_indentedObject {members : List (String × String)}
    {found : List (String × List Token)}
    (h : List.Forall₂ (fun member kept => member.1 = kept.1 ∧ ReadsTo member.2.toList kept.2)
      members found) :
    ReadsTo (indentedObject members).toList (objectTokens found) := by
  have htext : (indentedObject members).toList = '\x7b' :: (['\n'] ++
      ([',', '\n'].intercalate (members.map fun member => (indentedMember member.1 member.2).toList)
        ++ (['\n'] ++ ['\x7d']))) := by
    simp [indentedObject, String.toList_append, String.toList_intercalate, Function.comp_def]
  rw [htext]
  exact readsTo_enclosed mark_openBrace mark_closeBrace (by decide) (by decide)
    (forall₂_members readsTo_indentedMember h)

/-! ## Items between brackets -/

/-- No comma of the tokens is a place to cut at, once so many brackets are open. -/
def KeptFrom (least : Nat) (found : List Token) : Prop :=
  ∀ depth rest, least ≤ depth →
    splitItems depth (found ++ rest) = (splitItems depth rest).modifyHead (found ++ ·)

theorem modifyHead_append (found found' : List Token) (items : List (List Token)) :
    (items.modifyHead (found' ++ ·)).modifyHead (found ++ ·) =
      items.modifyHead (found ++ found' ++ ·) := by
  rw [List.modifyHead_modifyHead]
  congr 1
  funext later
  simp

theorem keptFrom_nil (least : Nat) : KeptFrom least [] := by
  intro depth rest _
  cases hsplit : splitItems depth rest <;> simp [hsplit]

theorem KeptFrom.mono {least more : Nat} {found : List Token} (h : KeptFrom least found)
    (hle : least ≤ more) : KeptFrom more found := fun depth rest hdepth =>
  h depth rest (Nat.le_trans hle hdepth)

theorem KeptFrom.append {least : Nat} {found found' : List Token} (h : KeptFrom least found)
    (h' : KeptFrom least found') : KeptFrom least (found ++ found') := by
  intro depth rest hdepth
  rw [List.append_assoc, h depth _ hdepth, h' depth rest hdepth, modifyHead_append]

theorem splitItems_cons {depth : Nat} {token : Token} (h : ¬(token = .comma ∧ depth = 0))
    (rest : List Token) : splitItems depth (token :: rest) =
      (splitItems (depthAfter depth token) rest).modifyHead (token :: ·) := by
  rw [splitItems, if_neg h]

/-- A token that is no bracket; a comma only inside one. -/
theorem keptFrom_token {least : Nat} {token : Token}
    (hdepth : ∀ depth, depthAfter depth token = depth) (hcomma : token = .comma → 0 < least) :
    KeptFrom least [token] := by
  intro depth rest hle
  have hinside : ¬(token = .comma ∧ depth = 0) := by
    rintro ⟨htoken, hzero⟩
    have := hcomma htoken
    omega
  rw [List.singleton_append, splitItems_cons hinside, hdepth]
  rfl

theorem keptFrom_string (content : List Piece) : KeptFrom 0 [.string content] :=
  keptFrom_token (fun _ => rfl) nofun

theorem keptFrom_integer (negative : Bool) (n : Nat) : KeptFrom 0 [.integer negative n] :=
  keptFrom_token (fun _ => rfl) nofun

theorem keptFrom_intercalate {least : Nat} {items : List (List Token)}
    (h : ∀ item ∈ items, KeptFrom (least + 1) item) :
    KeptFrom (least + 1) ([.comma].intercalate items) := by
  induction items with
  | nil => exact keptFrom_nil _
  | cons first rest ih =>
    have hrest := ih fun item hmem => h item (List.mem_cons_of_mem _ hmem)
    have hcomma : KeptFrom (least + 1) [.comma] := keptFrom_token (fun _ => rfl) fun _ => by omega
    cases rest with
    | nil =>
      rw [List.intercalate_singleton]
      exact h first (by simp)
    | cons second rest =>
      rw [List.intercalate_cons_cons]
      exact ((h first (by simp)).append hcomma).append hrest

/-- Brackets keep what is kept from the next depth on. -/
theorem KeptFrom.enclosed {opening closing : Token} {least : Nat} {found : List Token}
    (h : KeptFrom (least + 1) found) (hopening : ∀ depth, depthAfter depth opening = depth + 1)
    (hclosing : ∀ depth, depthAfter depth closing = depth - 1) :
    KeptFrom least (opening :: (found ++ [closing])) := by
  have hopen : opening ≠ .comma := by
    rintro rfl
    cases hopening 0
  have hclose : closing ≠ .comma := by
    rintro rfl
    cases hclosing 1
  intro depth rest hdepth
  rw [List.cons_append, splitItems_cons fun hcut => hopen hcut.1, hopening, List.append_assoc,
    h (depth + 1) _ (by omega), List.singleton_append, splitItems_cons fun hcut => hclose hcut.1,
    hclosing, Nat.add_sub_cancel, List.modifyHead_modifyHead, List.modifyHead_modifyHead]
  congr 1
  funext later
  simp

theorem keptFrom_listTokens {items : List (List Token)} (h : ∀ item ∈ items, KeptFrom 0 item) :
    KeptFrom 0 (listTokens items) := by
  have hitems := keptFrom_intercalate fun item hmem => (h item hmem).mono (Nat.zero_le 1)
  exact hitems.enclosed (fun _ => rfl) fun _ => rfl

theorem keptFrom_memberTokens {key : String} {value : List Token} (h : KeptFrom 0 value) :
    KeptFrom 0 (memberTokens key value) := by
  have hcolon : KeptFrom 0 [.colon] := keptFrom_token (fun _ => rfl) nofun
  exact (keptFrom_string _).append (hcolon.append h)

/-- Cutting at the commas gives back what was joined. -/
theorem splitItems_intercalate {parts : List (List Token)} (hne : parts ≠ [])
    (h : ∀ part ∈ parts, KeptFrom 0 part) : splitItems 0 ([.comma].intercalate parts) = parts := by
  induction parts with
  | nil => exact absurd rfl hne
  | cons first rest ih =>
    have hfirst := h first (by simp)
    cases rest with
    | nil =>
      have := hfirst 0 [] (Nat.le_refl 0)
      rw [List.append_nil] at this
      rw [List.intercalate_singleton, this, splitItems]
      simp
    | cons second rest =>
      have hrest := ih (by simp) fun part hmem => h part (List.mem_cons_of_mem _ hmem)
      rw [List.intercalate_cons_cons, List.append_assoc, List.singleton_append,
        hfirst 0 _ (Nat.le_refl 0), splitItems, if_pos ⟨rfl, rfl⟩]
      show (_ :: splitItems 0 _).modifyHead _ = _
      rw [hrest, List.modifyHead_cons, List.append_nil]

theorem items_intercalate {parts : List (List Token)}
    (h : ∀ part ∈ parts, KeptFrom 0 part ∧ part ≠ []) :
    items ([.comma].intercalate parts) = parts := by
  cases parts with
  | nil => rfl
  | cons first rest =>
    have hbody : ([.comma].intercalate (first :: rest) : List Token).isEmpty = false := by
      have hfirst := (h first (by simp)).2
      cases rest <;> simp [hfirst]
    rw [items, hbody]
    exact splitItems_intercalate (by simp) fun part hmem => (h part hmem).1

theorem items_memberTokens {members : List (String × List Token)}
    (h : ∀ member ∈ members, KeptFrom 0 member.2) :
    items ([.comma].intercalate (members.map fun member => memberTokens member.1 member.2)) =
      members.map fun member => memberTokens member.1 member.2 := by
  refine items_intercalate fun part hmem => ?_
  obtain ⟨member, hmember, rfl⟩ := List.mem_map.1 hmem
  exact ⟨keptFrom_memberTokens (h member hmember), by simp [memberTokens]⟩

theorem memberTokens_inj {key key' : String} {value value' : List Token}
    (h : memberTokens key value = memberTokens key' value') : key = key' ∧ value = value' := by
  simp only [memberTokens, List.cons.injEq, Token.string.injEq, map_pieceOf_inj,
    String.toList_inj, true_and] at h
  exact h

/-- **The tokens of an object tell its members.** -/
theorem objectTokens_inj {members members' : List (String × List Token)}
    (h : ∀ member ∈ members, KeptFrom 0 member.2) (h' : ∀ member ∈ members', KeptFrom 0 member.2)
    (heq : objectTokens members = objectTokens members') : members = members' := by
  have hbody := List.append_cancel_right (List.cons.inj heq).2
  have hitems := congrArg items hbody
  rw [items_memberTokens h, items_memberTokens h'] at hitems
  have hinj : Function.Injective fun member : String × List Token =>
      memberTokens member.1 member.2 := by
    intro member member' hmember
    exact Prod.ext_iff.2 (memberTokens_inj hmember)
  exact List.map_injective_iff.2 hinj hitems

theorem enclosed?_self (opening closing : Token) (body : List Token) :
    enclosed? opening closing (opening :: (body ++ [closing])) = some body := by
  simp [enclosed?]

end Clerk.Json

/-! ## Values -/

namespace Clerk.Value

/-- The token of a value. -/
def token : Value → Json.Token
  | .number n => .integer (decide (n.val < 0)) n.val.natAbs
  | .character c => .string [Json.pieceOf c]
  | .empty => .null

theorem readsTo_json (value : Value) : Json.ReadsTo value.json.toList [value.token] := by
  cases value with
  | number n =>
    have htext : n.text.toList = Decimal.ofInt n.val := String.toList_ofList
    rw [json, htext]
    exact Json.readsTo_ofInt n.val
  | character c =>
    have hquoted := Json.readsTo_quoted (String.singleton c)
    rw [String.toList_singleton] at hquoted
    exact hquoted
  | empty => exact Json.readsTo_null

theorem keptFrom_token (value : Value) : Json.KeptFrom 0 [value.token] := by
  cases value with
  | number n => exact Json.keptFrom_integer _ _
  | character c => exact Json.keptFrom_string _
  | empty => exact Json.keptFrom_token (fun _ => rfl) nofun

/-- Values are read one by one, in whatever layout they are written. -/
theorem forall₂_readsTo (values : List Value) :
    List.Forall₂ (fun item => Json.ReadsTo item.toList) (values.map json)
      (values.map fun value => [value.token]) := by
  rw [List.forall₂_map_left_iff, List.forall₂_map_right_iff, List.forall₂_same]
  exact fun value _ => value.readsTo_json

end Clerk.Value
