import Clerk.Session

/-!
# What an operation can do

Everything that can come of an operation, with the condition of each case.  A fact about all
operations is a fact about these cases.

* `Session.Does` — the cases;
* `Session.does_effect` — what comes of an operation is one of them;
* `Session.Does.effect_eq` — and nothing else comes of it when the condition of a case holds;
* `Session.Does.eq_self` — only an operation that is done or misses a value changes the session.
-/

set_option autoImplicit false

namespace Clerk

theorem Value.isEmpty_iff (value : Value) : value.isEmpty = true ↔ value = .empty := by
  cases value <;> simp [Value.isEmpty]

namespace Session

/-- What can come of an operation, with the session after it.  A value that is expected and not put
out is dropped (`miss`); every other fault leaves the session as it is. -/
inductive Does (session : Session) : Op → Effect → Session → Prop
  | take {value : Value} {pending : List Value} (hpending : session.pending = value :: pending) :
    Does session .inbox .next
      { session with taken := session.taken.push value, pending, register := value }
  | exhaust (hpending : session.pending = []) : Does session .inbox .exhausted session
  | deliver {expected : List Value} (hheld : session.register ≠ .empty)
      (hexpected : session.expected = session.register :: expected) :
    Does session .outbox .next
      { session with output := session.output.push session.register, expected }
  | holdNothing (hheld : session.register = .empty) :
    Does session .outbox (.fault .noValueHeld) session
  | expectNothing (hheld : session.register ≠ .empty) (hexpected : session.expected = []) :
    Does session .outbox (.fault .nothingExpected) session
  | miss {value : Value} {expected : List Value} (hheld : session.register ≠ .empty)
      (hexpected : session.expected = value :: expected) (hother : value ≠ session.register) :
    Does session .outbox (.fault (.mismatch value session.register)) { session with expected }
  | work {kind : CellOp} {address : Address} {slot : Nat} {register cell : Value}
      (hexchange : session.exchange kind address = .ok (slot, register, cell)) :
    Does session (.cell kind address) .next (session.store slot register cell)
  | refuse {kind : CellOp} {address : Address} {cause : Fault}
      (hexchange : session.exchange kind address = .error cause) :
    Does session (.cell kind address) (.fault cause) session
  | go {test : Option Test} {target : String} (hjump : session.takesJump test = .ok true) :
    Does session (.jump test target) (.goto target) session
  | stay {test : Option Test} {target : String} (hjump : session.takesJump test = .ok false) :
    Does session (.jump test target) .pass session
  | doubt {test : Option Test} {target : String} {cause : Fault}
      (hjump : session.takesJump test = .error cause) :
    Does session (.jump test target) (.fault cause) session

variable {session next : Session} {op : Op} {effect : Effect}

/-- **What comes of an operation is one of the cases.** -/
theorem does_effect (session : Session) (op : Op) :
    session.Does op (session.effect op).1 (session.effect op).2 := by
  cases op with
  | inbox =>
    rw [effect_inbox, takeInput]
    split
    · exact .exhaust ‹_›
    · exact .take ‹_›
  | outbox =>
    rw [effect_outbox, emit]
    split
    · rename_i hempty
      exact .holdNothing ((Value.isEmpty_iff _).1 hempty)
    · rename_i hheld
      rw [Value.isEmpty_iff] at hheld
      split
      · exact .expectNothing hheld ‹_›
      · rename_i value rest hexpected
        split
        · rename_i hsame
          exact .deliver hheld (hsame ▸ hexpected)
        · exact .miss hheld hexpected ‹_›
  | cell kind address =>
    rw [effect_cell, perform]
    split
    · exact .work ‹_›
    · exact .refuse ‹_›
  | jump test target =>
    simp only [Session.effect]
    split
    · exact .go ‹_›
    · exact .stay ‹_›
    · exact .doubt ‹_›

theorem does_of_effect (h : session.effect op = (effect, next)) : session.Does op effect next := by
  have hdoes := session.does_effect op
  rwa [h] at hdoes

/-- **The condition of a case decides what comes of the operation.** -/
theorem Does.effect_eq (h : session.Does op effect next) : session.effect op = (effect, next) := by
  cases h with
  | take hpending => rw [effect_inbox, takeInput, hpending]; rfl
  | exhaust hpending => rw [effect_inbox, takeInput, hpending]; rfl
  | deliver hheld hexpected => simp [effect_outbox, emit, Value.isEmpty_iff, hheld, hexpected]
  | holdNothing hheld => simp [effect_outbox, emit, Value.isEmpty_iff, hheld]
  | expectNothing hheld hexpected =>
    simp [effect_outbox, emit, Value.isEmpty_iff, hheld, hexpected]
  | miss hheld hexpected hother =>
    simp [effect_outbox, emit, Value.isEmpty_iff, hheld, hexpected, hother]
  | work hexchange => rw [effect_cell, perform, hexchange]; rfl
  | refuse hexchange => rw [effect_cell, perform, hexchange]; rfl
  | go hjump => rw [Session.effect, hjump]
  | stay hjump => rw [Session.effect, hjump]
  | doubt hjump => rw [Session.effect, hjump]

/-- **Only an operation that is done or misses a value changes the session.** -/
theorem Does.eq_self (h : session.Does op effect next) (hdone : effect ≠ .next)
    (hmiss : ∀ value held, effect ≠ .fault (.mismatch value held)) : next = session := by
  cases h with
  | take hpending => exact absurd rfl hdone
  | deliver hheld hexpected => exact absurd rfl hdone
  | work hexchange => exact absurd rfl hdone
  | miss hheld hexpected hother => exact absurd rfl (hmiss _ _)
  | _ => rfl

end Session

end Clerk
