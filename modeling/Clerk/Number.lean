import Clerk.Text

/-!
# Numbers

The machine counts with integers of 64 bits.  Addition and subtraction do not wrap: a result
outside the range is no number.
-/

set_option autoImplicit false

namespace Clerk

/-- An integer between `-2 ^ 63` and `2 ^ 63 - 1`. -/
@[ext]
structure Number where
  val : Int
  lower : -9223372036854775808 ≤ val
  upper : val ≤ 9223372036854775807
  deriving DecidableEq, Repr

namespace Number

/-- The number of a given integer, if it is in range. -/
def ofInt? (n : Int) : Option Number :=
  if h : -9223372036854775808 ≤ n ∧ n ≤ 9223372036854775807 then some ⟨n, h.1, h.2⟩ else none

/-- The number zero. -/
def zero : Number :=
  ⟨0, by decide, by decide⟩

/-- The number one. -/
def one : Number :=
  ⟨1, by decide, by decide⟩

/-- The number minus one. -/
def minusOne : Number :=
  ⟨-1, by decide, by decide⟩

/-- The sum, if it is in range. -/
def add? (a b : Number) : Option Number :=
  ofInt? (a.val + b.val)

/-- The difference, if it is in range. -/
def sub? (a b : Number) : Option Number :=
  ofInt? (a.val - b.val)

/-- A number in decimal. -/
def chars (n : Number) : List Char :=
  Decimal.ofInt n.val

/-- A number in decimal, as a string. -/
def text (n : Number) : String :=
  String.ofList n.chars

/-- Reads a number: an optional sign and digits whose value is in range. -/
def ofChars? (s : List Char) : Option Number :=
  (Decimal.toInt? s).bind ofInt?

theorem ofInt?_val (n : Number) : ofInt? n.val = some n := by
  simp [ofInt?, n.lower, n.upper]

theorem val_of_ofInt? {n : Int} {m : Number} (h : ofInt? n = some m) : m.val = n := by
  unfold ofInt? at h
  split at h
  · cases h; rfl
  · cases h

end Number

end Clerk
