import Clerk.Json.Quoted

/-!
# Tokens of JSON

A text is cut into tokens before it is read.  A number is kept as a sign and a magnitude when it
is written as an integer; of a number with a fraction or an exponent only its kind is kept.
-/

set_option autoImplicit false

namespace Clerk.Json

/-- A token.  A number is an integer if it has neither a fraction nor an exponent, and a decimal
otherwise. -/
inductive Token where
  | openBrace
  | closeBrace
  | openBracket
  | closeBracket
  | colon
  | comma
  | null
  | boolean
  | string (content : List Piece)
  | integer (negative : Bool) (magnitude : Nat)
  | decimal
  deriving DecidableEq, Repr

/-- Whether a character may stand between two tokens. -/
def isSpace (c : Char) : Bool :=
  c == ' ' || c == '\t' || c == '\n' || c == '\r'

/-- One or more digits, and what follows them. -/
def digits? (s : List Char) : Option (List Char × List Char) :=
  if (s.takeWhile Char.isDigit).isEmpty then none
  else some (s.takeWhile Char.isDigit, s.dropWhile Char.isDigit)

/-- The digits of a number before its point; a zero stands alone. -/
def wholePart? (s : List Char) : Option (Nat × List Char) :=
  match digits? s with
  | some ('0' :: _ :: _, _) => none
  | some (digits, rest) => some (Nat.ofDigitChars 10 digits 0, rest)
  | none => none

/-- A fraction, if there is one: whether, and what follows. -/
def fraction? : List Char → Option (Bool × List Char)
  | '.' :: rest => (digits? rest).map fun part => (true, part.2)
  | s => some (false, s)

/-- The sign of an exponent left out. -/
def afterSign : List Char → List Char
  | '+' :: rest => rest
  | '-' :: rest => rest
  | s => s

/-- An exponent, if there is one: whether, and what follows. -/
def exponent? : List Char → Option (Bool × List Char)
  | 'e' :: rest => (digits? (afterSign rest)).map fun part => (true, part.2)
  | 'E' :: rest => (digits? (afterSign rest)).map fun part => (true, part.2)
  | s => some (false, s)

/-- A number without its sign, and what follows it. -/
def unsigned? (negative : Bool) (s : List Char) : Option (Token × List Char) := do
  let (magnitude, rest) ← wholePart? s
  let (hasFraction, rest) ← fraction? rest
  let (hasExponent, rest) ← exponent? rest
  return (if hasFraction || hasExponent then .decimal else .integer negative magnitude, rest)

/-- The first token of a text that starts with one, and what follows it. -/
def token? : List Char → Option (Token × List Char)
  | '\x7b' :: rest => some (.openBrace, rest)
  | '\x7d' :: rest => some (.closeBrace, rest)
  | '[' :: rest => some (.openBracket, rest)
  | ']' :: rest => some (.closeBracket, rest)
  | ':' :: rest => some (.colon, rest)
  | ',' :: rest => some (.comma, rest)
  | '"' :: rest => (pieces rest).map fun found => (.string found.1, found.2)
  | 'n' :: 'u' :: 'l' :: 'l' :: rest => some (.null, rest)
  | 't' :: 'r' :: 'u' :: 'e' :: rest => some (.boolean, rest)
  | 'f' :: 'a' :: 'l' :: 's' :: 'e' :: rest => some (.boolean, rest)
  | '-' :: rest => unsigned? true rest
  | s => unsigned? false s

theorem length_lt_of_digits? {s : List Char} {found : List Char × List Char}
    (h : digits? s = some found) : found.2.length < s.length := by
  unfold digits? at h
  split at h
  · cases h
  · rename_i hne
    cases h
    cases s with
    | nil => simp at hne
    | cons c s =>
      have hc : c.isDigit = true := by
        by_cases hc : c.isDigit = true
        · exact hc
        · simp [hc] at hne
      have := (s.dropWhile_sublist Char.isDigit).length_le
      simp [hc]
      omega

theorem length_lt_of_wholePart? {s : List Char} {found : Nat × List Char}
    (h : wholePart? s = some found) : found.2.length < s.length := by
  unfold wholePart? at h
  split at h
  · cases h
  · rename_i hd
    cases h
    exact length_lt_of_digits? hd
  · cases h

theorem length_le_of_fraction? {s : List Char} {found : Bool × List Char}
    (h : fraction? s = some found) : found.2.length ≤ s.length := by
  unfold fraction? at h
  split at h
  · obtain ⟨part, hp, rfl⟩ := Option.map_eq_some_iff.1 h
    have := length_lt_of_digits? hp
    simp
    omega
  · cases h; simp

theorem length_afterSign_le (s : List Char) : (afterSign s).length ≤ s.length := by
  unfold afterSign
  split <;> simp

theorem length_le_of_exponent? {s : List Char} {found : Bool × List Char}
    (h : exponent? s = some found) : found.2.length ≤ s.length := by
  unfold exponent? at h
  split at h
  · obtain ⟨part, hp, rfl⟩ := Option.map_eq_some_iff.1 h
    have := length_lt_of_digits? hp
    rename_i rest
    have := length_afterSign_le rest
    simp
    omega
  · obtain ⟨part, hp, rfl⟩ := Option.map_eq_some_iff.1 h
    have := length_lt_of_digits? hp
    rename_i rest
    have := length_afterSign_le rest
    simp
    omega
  · cases h; simp

theorem length_lt_of_unsigned? {negative : Bool} {s : List Char} {found : Token × List Char}
    (h : unsigned? negative s = some found) : found.2.length < s.length := by
  simp only [unsigned?, Option.bind_eq_bind, Option.bind_eq_some_iff, Option.pure_def,
    Option.some.injEq] at h
  obtain ⟨whole, hw, part, hp, tail, ht, rfl⟩ := h
  have h1 := length_lt_of_wholePart? hw
  have h2 := length_le_of_fraction? hp
  have h3 := length_le_of_exponent? ht
  simp only
  omega

/-- A token takes at least one character. -/
theorem length_lt_of_token? {s : List Char} {found : Token × List Char}
    (h : token? s = some found) : found.2.length < s.length := by
  unfold token? at h
  split at h
  case h_7 =>
    obtain ⟨⟨content, after⟩, hp, rfl⟩ := Option.map_eq_some_iff.1 h
    have := length_lt_of_pieces hp
    simp
    omega
  case h_11 =>
    have := length_lt_of_unsigned? h
    simp
    omega
  case h_12 => exact length_lt_of_unsigned? h
  all_goals
    cases h
    simp
    try omega

/-- The tokens of a text. -/
def tokens (s : List Char) : Option (List Token) :=
  match _h : s.dropWhile isSpace with
  | [] => some []
  | c :: rest =>
    match _ht : token? (c :: rest) with
    | none => none
    | some found => (tokens found.2).map (found.1 :: ·)
termination_by s.length
decreasing_by
  have h1 := length_lt_of_token? _ht
  have h2 := (s.dropWhile_sublist isSpace).length_le
  rw [_h] at h2
  omega

end Clerk.Json
