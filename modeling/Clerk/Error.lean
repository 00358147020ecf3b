import Clerk.Keyword
import Clerk.Value

/-!
# Errors

Three families of errors, each with its message:

* `Fault` — an operation that cannot be carried out while a program runs;
* `ReadError` — a text that cannot be read;
* `Error` — any error, a label bound to two places among them.
-/

set_option autoImplicit false

namespace Clerk

/-- The arithmetic of the machine, as faults name it. -/
inductive Arithmetic where
  | addition
  | subtraction
  | increment
  | decrement
  deriving DecidableEq, Repr

/-- How messages name an arithmetic operation. -/
def Arithmetic.text : Arithmetic → String
  | .addition => "addition"
  | .subtraction => "subtraction"
  | .increment => "increment"
  | .decrement => "decrement"

/-- The place of an operand that is no number. -/
inductive Side where
  | register
  | cell (slot : Nat)
  deriving DecidableEq, Repr

/-- How messages name the place of an operand. -/
def Side.text : Side → String
  | .register => "the register"
  | .cell slot => "memory cell " ++ Decimal.text slot

/-- Why an operation cannot be carried out.  A *pointer* is the cell that an indirect address names;
it may be outside the memory, hold no number, or hold a number outside the memory. -/
inductive Fault where
  | noValueHeld
  | nothingExpected
  | mismatch (expected actual : Value)
  | noSuchCell (address : Number)
  | noSuchPointer (address : Number)
  | pointerNotNumber (slot : Nat)
  | danglingPointer (slot : Nat) (target : Number)
  | notANumber (operation : Arithmetic) (side : Side)
  | overflow (operation : Arithmetic)
  | nothingToCompare (test : Test)
  | noSuchLabel (label : String)
  deriving DecidableEq, Repr

/-- The message of a fault. -/
def Fault.message : Fault → String
  | .noValueHeld => "no data to output"
  | .nothingExpected => "nothing left to output"
  | .mismatch expected actual => "expected to output " ++ expected.text ++ ", not " ++ actual.text
  | .noSuchCell address => "attempted to access nonexistent memory address " ++ address.text
  | .noSuchPointer address =>
    "attempted to read a pointer from nonexistent memory address " ++ address.text
  | .pointerNotNumber slot =>
    "memory cell " ++ Decimal.text slot ++ " holds no integer to use as an address"
  | .danglingPointer slot target =>
    "pointer in memory cell " ++ Decimal.text slot ++ " refers to nonexistent memory address "
      ++ target.text
  | .notANumber operation side => side.text ++ " holds no integer for " ++ operation.text
  | .overflow operation => operation.text ++ " overflowed"
  | .nothingToCompare test => "nothing to compare for " ++ test.mnemonic
  | .noSuchLabel label => "invalid jump target `" ++ label ++ "`"

/-- Why a text cannot be read.  Each cause carries the text at fault; a metadata block that runs to
the end of the text is named by its opening line. -/
inductive ReadError where
  | unknownKeyword (word : String)
  | missingOperand (keyword : String)
  | unexpectedOperand (keyword operand : String)
  | badAddress (operand : String)
  | badLabel (name : String)
  | unterminatedMetadata (opening : String)
  | badValue (word : String)
  deriving DecidableEq, Repr

/-- The message of a reading error. -/
def ReadError.message : ReadError → String
  | .unknownKeyword word => "unknown instruction `" ++ word ++ "`"
  | .missingOperand keyword => "`" ++ keyword ++ "` requires an operand"
  | .unexpectedOperand keyword operand =>
    "`" ++ keyword ++ "` does not take operand `" ++ operand ++ "`"
  | .badAddress operand => "`" ++ operand ++ "` is not a valid memory operand"
  | .badLabel name => "`" ++ name ++ "` is not a valid label"
  | .unterminatedMetadata opening => "metadata block `" ++ opening ++ "` is never terminated"
  | .badValue word => "`" ++ word ++ "` is neither an integer nor a single character"

/-- Any error: a fault of a running program, a label that is bound to two places, or a text that
cannot be read. -/
inductive Error where
  | fault (cause : Fault)
  | duplicateLabel (label : String)
  | reading (cause : ReadError)
  deriving DecidableEq, Repr

/-- The stages at which errors arise. -/
inductive Category where
  | runtime
  | build
  | parse
  deriving DecidableEq, Repr

/-- The name of a stage. -/
def Category.text : Category → String
  | .runtime => "runtime"
  | .build => "build"
  | .parse => "parse"

/-- The message of an error. -/
def Error.message : Error → String
  | .fault cause => cause.message
  | .duplicateLabel label => "label `" ++ label ++ "` is defined more than once"
  | .reading cause => "parse error: " ++ cause.message

/-- The stage at which an error arises. -/
def Error.category : Error → Category
  | .fault _ => .runtime
  | .duplicateLabel _ => .build
  | .reading _ => .parse

/-! ## Chains of computations

What is known of the parts of a chain of computations when it succeeds and when it fails. -/

/-- A chain of computations that succeeds succeeds in both parts. -/
theorem bind_eq_ok {ε α β : Type} {first : Except ε α} {next : α → Except ε β} {result : β}
    (h : (first >>= next) = .ok result) :
    ∃ value, first = .ok value ∧ next value = .ok result := by
  cases first with
  | error cause => cases h
  | ok value => exact ⟨value, rfl, h⟩

/-- A chain of computations fails at its first part or after it. -/
theorem bind_eq_error {ε α β : Type} {first : Except ε α} {next : α → Except ε β} {cause : ε}
    (h : (first >>= next) = .error cause) :
    first = .error cause ∨ ∃ value, first = .ok value ∧ next value = .error cause := by
  cases first with
  | error _ =>
    cases h
    exact Or.inl rfl
  | ok value => exact Or.inr ⟨value, rfl, h⟩

theorem eq_error_of_bind_pure {ε α β : Type} {first : Except ε α} {f : α → β} {cause : ε}
    (h : (first >>= fun value => pure (f value)) = .error cause) : first = .error cause := by
  rcases bind_eq_error h with h | ⟨value, -, h⟩
  · exact h
  · cases h

/-- Two computations that agree after a map each fail with one cause or succeed both. -/
theorem map_eq_map {ε α β γ : Type} {f : α → γ} {g : β → γ} {first : Except ε α}
    {second : Except ε β} (h : first.map f = second.map g) :
    (∃ cause, first = .error cause ∧ second = .error cause) ∨
      ∃ value value', first = .ok value ∧ second = .ok value' ∧ f value = g value' := by
  cases first with
  | error cause =>
    cases second with
    | error other =>
      cases h
      exact Or.inl ⟨cause, rfl, rfl⟩
    | ok value => cases h
  | ok value =>
    cases second with
    | error cause => cases h
    | ok value' => exact Or.inr ⟨value, value', rfl, rfl, Except.ok.inj h⟩

end Clerk
