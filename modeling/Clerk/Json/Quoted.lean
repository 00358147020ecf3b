/-!
# Quoted strings of JSON

`Json.quoted` writes a string in quotes.  The quote, the backslash and the control characters are
escaped, with a short form where there is one; everything else stands for itself.

Reading goes in two steps.  `Json.pieces` cuts a quoted text into characters and numbered code
units and checks the form of the escapes only; `Json.assemble` joins the code units of a surrogate
pair into one character and refuses a surrogate that stands alone.
-/

set_option autoImplicit false

namespace Clerk.Json

/-- How a character is written inside quotes. -/
def escapeChar (c : Char) : List Char :=
  if c = '"' then ['\\', '"']
  else if c = '\\' then ['\\', '\\']
  else if c.toNat = 0x08 then ['\\', 'b']
  else if c.toNat = 0x09 then ['\\', 't']
  else if c.toNat = 0x0A then ['\\', 'n']
  else if c.toNat = 0x0C then ['\\', 'f']
  else if c.toNat = 0x0D then ['\\', 'r']
  else if c.toNat < 0x20 then
    ['\\', 'u', '0', '0', Nat.digitChar (c.toNat / 16), Nat.digitChar (c.toNat % 16)]
  else [c]

/-- How a text is written inside quotes. -/
def escape (s : List Char) : List Char :=
  s.flatMap escapeChar

/-- A string in quotes. -/
def quoted (s : String) : String :=
  "\"" ++ String.ofList (escape s.toList) ++ "\""

/-- A piece of a quoted text: a character, as itself or by a short escape, or a code unit of 16
bits by its number. -/
inductive Piece where
  | char (c : Char)
  | unit (code : Nat)
  deriving DecidableEq, Repr

/-- The value of a hexadecimal digit in either case. -/
def hexDigit? (c : Char) : Option Nat :=
  if c.isDigit then some (c.toNat - 48)
  else if 97 ≤ c.toNat ∧ c.toNat ≤ 102 then some (c.toNat - 87)
  else if 65 ≤ c.toNat ∧ c.toNat ≤ 70 then some (c.toNat - 55)
  else none

/-- The number written by four hexadecimal digits. -/
def hex4? (a b c d : Char) : Option Nat := do
  let w ← hexDigit? a
  let x ← hexDigit? b
  let y ← hexDigit? c
  let z ← hexDigit? d
  return 4096 * w + 256 * x + 16 * y + z

/-- The character of a short escape. -/
def shortEscape? : Char → Option Char
  | '"' => some '"'
  | '\\' => some '\\'
  | '/' => some '/'
  | 'b' => some (Char.ofNat 0x08)
  | 't' => some (Char.ofNat 0x09)
  | 'n' => some (Char.ofNat 0x0A)
  | 'f' => some (Char.ofNat 0x0C)
  | 'r' => some (Char.ofNat 0x0D)
  | _ => none

/-- The pieces up to the closing quote, and what follows it. -/
def pieces : List Char → Option (List Piece × List Char)
  | [] => none
  | '"' :: rest => some ([], rest)
  | '\\' :: 'u' :: a :: b :: c :: d :: rest =>
    match hex4? a b c d, pieces rest with
    | some code, some (later, after) => some (.unit code :: later, after)
    | _, _ => none
  | '\\' :: e :: rest =>
    match shortEscape? e, pieces rest with
    | some c, some (later, after) => some (.char c :: later, after)
    | _, _ => none
  | c :: rest =>
    if c.toNat < 0x20 then none
    else
      match pieces rest with
      | some (later, after) => some (.char c :: later, after)
      | none => none

/-- Whether a code unit is the first half of a surrogate pair. -/
def isHigh (code : Nat) : Bool :=
  decide (0xD800 ≤ code) && decide (code ≤ 0xDBFF)

/-- Whether a code unit is the second half of a surrogate pair. -/
def isLow (code : Nat) : Bool :=
  decide (0xDC00 ≤ code) && decide (code ≤ 0xDFFF)

/-- The character of a surrogate pair. -/
def ofPair (high low : Nat) : Char :=
  Char.ofNat (0x10000 + (high - 0xD800) * 0x400 + (low - 0xDC00))

/-- The characters of pieces. -/
def assemble : List Piece → Option (List Char)
  | [] => some []
  | .char c :: rest => (assemble rest).map (c :: ·)
  | .unit high :: .unit low :: rest =>
    if isHigh high then
      if isLow low then (assemble rest).map (ofPair high low :: ·) else none
    else if isLow high then none
    else (assemble (.unit low :: rest)).map (Char.ofNat high :: ·)
  | .unit code :: rest =>
    if isHigh code || isLow code then none else (assemble rest).map (Char.ofNat code :: ·)

/-- What follows a quoted text is shorter than the text. -/
theorem length_lt_of_pieces {s : List Char} {found : List Piece} {after : List Char}
    (h : pieces s = some (found, after)) : after.length < s.length := by
  fun_induction pieces s generalizing found with
  | case1 => cases h
  | case2 => cases h; simp
  | case3 a b c d rest code later after' hrest _ ih =>
    cases h
    have := ih hrest
    simp only [List.length_cons]
    omega
  | case4 => cases h
  | case5 e rest c later after' _ hrest _ ih =>
    cases h
    have := ih hrest
    simp only [List.length_cons]
    omega
  | case6 => cases h
  | case7 => cases h
  | case8 c rest _ _ _ _ later after' hrest ih =>
    cases h
    have := ih hrest
    simp only [List.length_cons]
    omega
  | case9 => cases h

end Clerk.Json
