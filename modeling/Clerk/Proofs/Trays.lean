import Clerk.Proofs.Transitions

/-!
# The trays of a session

A session takes values from its in-tray and puts values in its out-tray, where they are checked
against the values still expected.  Calls from outside and steps of programs may be mixed in any
way and may go on after a fault; still no value is lost, made up or moved out of its order.

* `Session.Moved` — the four things that can happen to the trays;
* `Machine.step_moved`, `Session.call_moved` — nothing else happens in a step or in a call;
* `Session.Balanced` — how trays and history fit together, which every move keeps;
* `Session.trays_conserved` — what this comes to after any calls.
-/

set_option autoImplicit false

namespace Clerk

/-! ## Moves -/

/-- What is done to the trays, as far as the caller is told.  At a miss another value was expected,
and is expected no more. -/
inductive Move where
  | rest
  | take
  | deliver
  | miss
  deriving DecidableEq, Repr

/-- The move that a fault tells of. -/
def Fault.move : Fault → Move
  | .mismatch _ _ => .miss
  | _ => .rest

/-- The move of an operation that is carried out. -/
def Op.move : Op → Move
  | .inbox => .take
  | .outbox => .deliver
  | _ => .rest

/-- The move of a step, told from what the step says and from the operation it came to, if any. -/
def Outcome.move (op : Option Op) : Outcome → Move
  | .running => op.elim .rest Op.move
  | .ended (.halt _) => .rest
  | .ended (.fault cause) => cause.move

theorem Fault.move_of_plain {cause : Fault} (h : cause.plain = true) : cause.move = .rest := by
  cases cause with
  | mismatch expected actual => cases h
  | _ => rfl

namespace Session

/-! ## How a session moves -/

/-- How each move changes a session. -/
inductive Moved (session : Session) : Move → Session → Prop
  | rest (register : Value) (memory : Memory) :
    Moved session .rest { session with register, memory }
  | take {value : Value} {pending : List Value} (h : session.pending = value :: pending) :
    Moved session .take
      { session with taken := session.taken.push value, pending, register := value }
  | deliver {expected : List Value} (hheld : session.register ≠ .empty)
      (h : session.expected = session.register :: expected) :
    Moved session .deliver { session with output := session.output.push session.register, expected }
  | miss {value : Value} {expected : List Value} (h : session.expected = value :: expected) :
    Moved session .miss { session with expected }

theorem Moved.refl (session : Session) : Moved session .rest session :=
  .rest session.register session.memory

theorem takeInput_moved (session : Session) :
    Moved session (if session.takeInput.1 then .take else .rest) session.takeInput.2 := by
  unfold takeInput
  split
  · exact Moved.refl session
  · rename_i value rest hpending
    exact Moved.take hpending

theorem emit_moved (session : Session) :
    Moved session (session.emit.1.elim .deliver Fault.move) session.emit.2 := by
  unfold emit
  split
  · exact Moved.refl session
  · rename_i hheld
    rw [Value.isEmpty_iff] at hheld
    split
    · exact Moved.refl session
    · rename_i value rest hexpected
      split
      · rename_i hsame
        subst hsame
        exact Moved.deliver hheld hexpected
      · exact Moved.miss hexpected

end Session

/-- **A step makes the move that it tells of, and no other.** -/
theorem Machine.step_moved (program : Program) (machine : Machine) :
    machine.session.Moved ((machine.step program).1.move (program.opAt? machine.position))
      (machine.step program).2.session := by
  rcases hstep : machine.step program with ⟨outcome, next⟩
  cases stepped_of_step hstep with
  | finish hop => exact Session.Moved.refl _
  | advance hop hdoes =>
    rw [hop]
    cases hdoes with
    | take hpending => exact Session.Moved.take hpending
    | deliver hheld hexpected => exact Session.Moved.deliver hheld hexpected
    | work hexchange => exact Session.Moved.rest _ _
  | pass hop hdoes =>
    rw [hop]
    cases hdoes
    exact Session.Moved.refl _
  | jump hop hdoes hresolve =>
    rw [hop]
    cases hdoes
    exact Session.Moved.refl _
  | stray hop hdoes hresolve => exact Session.Moved.refl _
  | exhaust hop hdoes => exact Session.Moved.refl _
  | fault hop hdoes =>
    simp only [Outcome.move]
    cases hdoes with
    | miss hheld hexpected hother => exact Session.Moved.miss hexpected
    | holdNothing hheld => exact Session.Moved.refl _
    | expectNothing hheld hexpected => exact Session.Moved.refl _
    | refuse hexchange =>
      rw [Fault.move_of_plain (Session.plain_of_exchange hexchange)]
      exact Session.Moved.refl _
    | doubt hjump =>
      rw [Fault.move_of_plain (Session.plain_of_takesJump hjump)]
      exact Session.Moved.refl _

namespace Session

/-! ## Calls and their history -/

/-- What can be done with a session: a call of its own, or a step of some program wherever that
program may be. -/
inductive Call where
  | takeInput
  | emit
  | setRegister (value : Value)
  | resolve (address : Address)
  | renewMemory (size : Nat)
  | replaceMemory (memory : Memory)
  | step (program : Program) (position steps : Nat)

/-- Carries out a call.  The move is told from the answer of the call alone. -/
def call (session : Session) : Call → Move × Session
  | .takeInput => (if session.takeInput.1 then .take else .rest, session.takeInput.2)
  | .emit => (session.emit.1.elim .deliver Fault.move, session.emit.2)
  | .setRegister value => (.rest, session.setRegister value)
  | .resolve _ => (.rest, session)
  | .renewMemory size => (.rest, session.renewMemory size)
  | .replaceMemory memory => (.rest, { session with memory })
  | .step program position steps =>
    let (outcome, machine) := Machine.step program ⟨session, position, steps⟩
    (outcome.move (program.opAt? position), machine.session)

/-- The move of each call and the session after it. -/
def history (session : Session) : List Call → List (Move × Session)
  | [] => []
  | call :: rest => session.call call :: (session.call call).2.history rest

/-- The session after all calls. -/
def after (session : Session) (calls : List Call) : Session :=
  calls.foldl (fun current call => (current.call call).2) session

/-- The sessions right after a value was taken. -/
def takes (history : List (Move × Session)) : List Session :=
  (history.filter (·.1 == .take)).map (·.2)

/-- The number of values that were expected and did not come. -/
def misses (history : List (Move × Session)) : Nat :=
  history.countP (·.1 == .miss)

@[simp]
theorem takes_concat (past : List (Move × Session)) (move : Move) (next : Session) :
    takes (past ++ [(move, next)]) = takes past ++ if move = .take then [next] else [] := by
  unfold takes
  rw [List.filter_append, List.map_append]
  split <;> rename_i h <;> simp [h]

@[simp]
theorem misses_concat (past : List (Move × Session)) (move : Move) (next : Session) :
    misses (past ++ [(move, next)]) = misses past + if move = .miss then 1 else 0 := by
  unfold misses
  rw [List.countP_append]
  split <;> rename_i h <;> simp [h]

/-- **A call makes the move that it tells of, and no other.** -/
theorem call_moved (session : Session) (call : Call) :
    session.Moved (session.call call).1 (session.call call).2 := by
  cases call with
  | takeInput => exact session.takeInput_moved
  | emit => exact session.emit_moved
  | setRegister value => exact Moved.rest value session.memory
  | resolve address => exact Moved.refl session
  | renewMemory size => exact Moved.rest session.register (Memory.ofSize size)
  | replaceMemory memory => exact Moved.rest session.register memory
  | step program position steps => exact Machine.step_moved program ⟨session, position, steps⟩

/-! ## The balance of the trays -/

/-- How the trays of a session stand, given what went in at the start and the history since. -/
structure Balanced (input expected : List Value) (history : List (Move × Session))
    (session : Session) : Prop where
  taken : session.taken.toList = (takes history).map Session.register
  input : session.taken.toList ++ session.pending = input
  consumed : ∃ consumed, expected = consumed ++ session.expected ∧
    consumed.length = session.output.size + misses history ∧
      session.output.toList.Sublist consumed
  held : .empty ∉ session.output.toList

variable {input expected : List Value} {past : List (Move × Session)} {session next : Session}

theorem balanced_start (size : Nat) (input expected : List Value) :
    Balanced input expected [] (start size input expected) :=
  ⟨rfl, rfl, ⟨[], rfl, rfl, List.Sublist.slnil⟩, by simp [start]⟩

/-- **Every move keeps the balance.** -/
theorem Balanced.moved (h : Balanced input expected past session) {move : Move}
    (hmoved : session.Moved move next) :
    Balanced input expected (past ++ [(move, next)]) next := by
  obtain ⟨consumed, hconsumed, hlength, hsublist⟩ := h.consumed
  cases hmoved with
  | rest register memory =>
    refine ⟨?_, h.input, ⟨consumed, hconsumed, ?_, hsublist⟩, h.held⟩
    · simpa using h.taken
    · simpa using hlength
  | take hpending =>
    refine ⟨?_, ?_, ⟨consumed, hconsumed, ?_, hsublist⟩, h.held⟩
    · simp [h.taken]
    · simpa [hpending] using h.input
    · simpa using hlength
  | deliver hheld hexpected =>
    refine ⟨?_, h.input, ⟨consumed ++ [session.register], ?_, ?_, ?_⟩, ?_⟩
    · simpa using h.taken
    · simpa [hexpected] using hconsumed
    · rw [List.length_append, List.length_singleton, Array.size_push, misses_concat,
        if_neg (by decide)]
      omega
    · simpa using hsublist.append (List.Sublist.refl [session.register])
    · simpa [Ne.symm hheld] using h.held
  | @miss value rest hexpected =>
    -- the value that is dropped widens the gap between what is consumed and the output
    refine ⟨?_, h.input, ⟨consumed ++ [value], ?_, ?_, ?_⟩, h.held⟩
    · simpa using h.taken
    · simpa [hexpected] using hconsumed
    · show (consumed ++ [value]).length = session.output.size + _
      rw [List.length_append, List.length_singleton, misses_concat, if_pos rfl]
      omega
    · exact hsublist.trans (List.sublist_append_left consumed [value])

theorem Balanced.calls (h : Balanced input expected past session) (calls : List Call) :
    Balanced input expected (past ++ session.history calls) (session.after calls) := by
  induction calls generalizing past session with
  | nil => simpa [history, after] using h
  | cons call rest ih =>
    rw [history, List.append_cons]
    exact ih (h.moved (session.call_moved call))

/-- As long as no value was missed, the output and what is still expected make up what was
expected at the start. -/
theorem Balanced.output_append (h : Balanced input expected past session)
    (hmisses : misses past = 0) : session.output.toList ++ session.expected = expected := by
  obtain ⟨consumed, hconsumed, hlength, hsublist⟩ := h.consumed
  have hall : session.output.toList = consumed := by
    refine hsublist.eq_of_length ?_
    rw [Array.length_toList, hlength, hmisses, Nat.add_zero]
  rw [hall, hconsumed]

/-- The output grows at its end only. -/
theorem Moved.output_grows {move : Move} (h : session.Moved move next) :
    session.output.toList <+: next.output.toList := by
  cases h with
  | rest register memory => exact List.prefix_refl _
  | take hpending => exact List.prefix_refl _
  | deliver hheld hexpected => simp
  | miss hexpected => exact List.prefix_refl _

theorem output_grows_after (session : Session) (calls : List Call) :
    session.output.toList <+: (session.after calls).output.toList := by
  induction calls generalizing session with
  | nil => exact List.prefix_refl _
  | cons call rest ih => exact (session.call_moved call).output_grows.trans (ih _)

/-! ## Conservation -/

theorem takeInput_iff (session : Session) :
    session.takeInput.1 = true ↔ 0 < session.pending.length := by
  unfold takeInput
  cases session.pending <;> simp

theorem emit_iff (session : Session) :
    session.emit.1 = none ↔
      session.register ≠ .empty ∧ session.expected.head? = some session.register := by
  unfold emit
  split
  · rename_i hempty
    simp [(Value.isEmpty_iff _).1 hempty]
  · rename_i hheld
    rw [Value.isEmpty_iff] at hheld
    split
    · rename_i hnone
      simp [hnone]
    · rename_i value rest hexpected
      split
      · rename_i hsame
        simp [hexpected, hsame, hheld]
      · rename_i hother
        simp [hexpected, hother]

/-- What is in the trays after a history that began with `input` and `expected`.  Values are taken
in order, each into the register; expected values go from the front, one for each value put out and
one for each miss, and the output is among them.  A value can be taken as long as not all of them
were, and put out if it is the next one expected. -/
structure Conserved (input expected : List Value) (history : List (Move × Session))
    (session : Session) : Prop where
  input_eq : session.input = input
  pending_eq : session.pending = input.drop (takes history).length
  registers_eq : (takes history).map Session.register = input.take (takes history).length
  consumed : ∃ consumed, expected = consumed ++ session.expected ∧
    consumed.length = session.output.size + misses history ∧
      session.output.toList.Sublist consumed
  output_append : misses history = 0 → session.output.toList ++ session.expected = expected
  held : .empty ∉ session.output.toList
  take_iff : session.takeInput.1 = true ↔ (takes history).length < input.length
  emit_iff : session.emit.1 = none ↔
    session.register ≠ .empty ∧ session.expected.head? = some session.register

theorem Balanced.length_taken (h : Balanced input expected past session) :
    session.taken.toList.length = (takes past).length := by
  rw [h.taken, List.length_map]

theorem Balanced.conserved (h : Balanced input expected past session) :
    Conserved input expected past session where
  input_eq := h.input
  pending_eq := by rw [← h.input, ← h.length_taken, List.drop_left]
  registers_eq := by rw [← h.input, ← h.length_taken, List.take_left, h.taken]
  consumed := h.consumed
  output_append := h.output_append
  held := h.held
  take_iff := by
    rw [takeInput_iff, ← h.input, ← h.length_taken, List.length_append]
    omega
  emit_iff := session.emit_iff

/-- **No value is lost, made up or moved out of its order**, whatever calls are made and however
many of them fail, and the output only grows at its end. -/
theorem trays_conserved (size : Nat) (input expected : List Value) (calls : List Call) :
    Conserved input expected ((start size input expected).history calls)
        ((start size input expected).after calls) ∧
      ∀ more, ((start size input expected).after calls).output.toList <+:
        ((start size input expected).after (calls ++ more)).output.toList := by
  refine ⟨((balanced_start size input expected).calls calls).conserved, fun more => ?_⟩
  unfold after
  rw [List.foldl_append]
  exact output_grows_after _ more

-- After a miss the output need not be a beginning of what was expected.
example : ((start 0 [] [.character 'a', .character 'b']).after
    [.setRegister (.character 'b'), .emit, .emit]).output = #[.character 'b'] := by decide

end Session

end Clerk
