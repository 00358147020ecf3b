/-!
# Texts

Text is handled as a list of characters.

* Blanks: a character is *blank* when it has the Unicode property `White_Space`; `trim` drops the
  blanks on both sides of a text and `words` cuts a text at its blanks.
* Lines: a newline ends a line.  What follows the last newline is a line of its own only if it is
  not empty, so a text that ends in a newline has no empty last line.
* Letter case: keywords are compared without regard to the case of the letters `A` to `Z`; all
  other characters count as they are.
* Decimal integers: `Decimal.ofInt` writes an integer with the fewest digits and a leading `-` when
  it is negative.  `Decimal.toInt?` reads more than that: a sign `+` or `-` is optional and leading
  zeros are allowed, but there has to be at least one digit and nothing else.
-/

set_option autoImplicit false

namespace Clerk

namespace Text

/-! ## Blanks -/

/-- The code points with the property `White_Space`, as inclusive ranges in ascending order. -/
def blankRanges : List (Nat × Nat) :=
  [(0x0009, 0x000D), (0x0020, 0x0020), (0x0085, 0x0085), (0x00A0, 0x00A0), (0x1680, 0x1680),
   (0x2000, 0x200A), (0x2028, 0x2029), (0x202F, 0x202F), (0x205F, 0x205F), (0x3000, 0x3000)]

/-- Whether a character is blank. -/
def isBlank (c : Char) : Bool :=
  blankRanges.any fun range => decide (range.1 ≤ c.toNat) && decide (c.toNat ≤ range.2)

/-- The text without its leading blanks. -/
def trimLeft (s : List Char) : List Char :=
  s.dropWhile isBlank

/-- The text without its trailing blanks. -/
def trimRight (s : List Char) : List Char :=
  (s.reverse.dropWhile isBlank).reverse

/-- The text without the blanks on its two sides. -/
def trim (s : List Char) : List Char :=
  trimRight (trimLeft s)

/-- The maximal runs of characters that are not blank, in order. -/
def words (s : List Char) : List (List Char) :=
  (s.splitOnP isBlank).filter fun w => !w.isEmpty

/-! ## Lines -/

/-- The lines of a text, without their newlines. -/
def lines (s : List Char) : List (List Char) :=
  let pieces := s.splitOn '\n'
  if pieces.getLast? = some [] then pieces.dropLast else pieces

/-- The lines of a text that hold more than blanks, each trimmed. -/
def trimmedLines (s : List Char) : List (List Char) :=
  ((lines s).map trim).filter fun line => !line.isEmpty

/-! ## Letter case -/

/-- The text with the letters `A` to `Z` in lower case. -/
def foldCase (s : List Char) : List Char :=
  s.map Char.toLower

/-- Equality up to the case of the letters `A` to `Z`. -/
def sameLetters (s t : List Char) : Bool :=
  foldCase s == foldCase t

end Text

/-! ## Decimal integers -/

namespace Decimal

/-- The digits of a natural number, most significant first. -/
def ofNat (n : Nat) : List Char :=
  Nat.toDigits 10 n

/-- An integer in decimal. -/
def ofInt (n : Int) : List Char :=
  if n < 0 then '-' :: ofNat n.natAbs else ofNat n.natAbs

/-- Reads one or more digits. -/
def toNat? (s : List Char) : Option Nat :=
  if !s.isEmpty && s.all Char.isDigit then some (Nat.ofDigitChars 10 s 0) else none

/-- Reads an optional sign and one or more digits. -/
def toInt? : List Char → Option Int
  | '-' :: digits => (toNat? digits).map fun n => -Int.ofNat n
  | '+' :: digits => (toNat? digits).map Int.ofNat
  | digits => (toNat? digits).map Int.ofNat

/-- A natural number in decimal, as a string. -/
def text (n : Nat) : String :=
  String.ofList (ofNat n)

end Decimal

end Clerk
