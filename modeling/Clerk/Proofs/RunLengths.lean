import Clerk.Proofs.Transitions
import Clerk.Proofs.WellFormed

/-!
# How long a run can be

A program may jump back, so its position says little about how long it still runs, and a jump that
is not taken is not counted, so the count of steps says little by itself.  Together with the values
left in the in-tray and with the length of the program both bound the run.

* `Program.LoopsTakeInput` — every jump back goes to an operation that takes a value;
* `Machine.ahead` — what is then still ahead of a machine; every step makes it less;
* `Machine.ends_of_loopsTakeInput` — such programs end, whatever the input;
* `Machine.Metered` — how the steps made, the steps counted and the position fit together;
* `Machine.metered_of_goesOn` — they do so along every run of every program.
-/

set_option autoImplicit false

namespace Clerk

/-- Every jump that does not go forward goes to an operation that takes a value. -/
def Program.LoopsTakeInput (program : Program) : Prop :=
  ∀ index < program.size, ∀ target ∈ (program.opAt? index).bind Op.target?,
    ∀ place ∈ program.resolve target, place ≤ index → program.opAt? place = some .inbox

instance (program : Program) : Decidable program.LoopsTakeInput := by
  unfold Program.LoopsTakeInput
  infer_instance

theorem Program.lt_size_of_opAt? {program : Program} {position : Nat} {op : Op}
    (h : program.opAt? position = some op) : position < program.size := by
  obtain ⟨instruction, hget, -⟩ := Option.map_eq_some_iff.1 h
  exact (Array.getElem?_eq_some_iff.1 hget).1

namespace Session

variable {session next : Session} {op : Op}

/-- An operation that is done takes at most one value or puts out at most one. -/
theorem Does.one_move (h : session.Does op .next next) :
    ∃ inputs outputs, session.pending = inputs ++ next.pending ∧
      next.output.toList = session.output.toList ++ outputs ∧
        inputs.length + outputs.length ≤ 1 := by
  cases h with
  | take hpending => exact ⟨[_], [], hpending, by simp, Nat.le_refl 1⟩
  | deliver hheld hexpected =>
    exact ⟨[], [session.register], rfl, Array.toList_push, Nat.le_refl 1⟩
  | work hexchange => exact ⟨[], [], rfl, by simp [store], Nat.zero_le 1⟩

/-- Only taking a value changes the in-tray. -/
theorem Does.pending_eq (h : session.Does op .next next) (hop : op ≠ .inbox) :
    next.pending = session.pending := by
  cases h with
  | take hpending => exact absurd rfl hop
  | deliver hheld hexpected => rfl
  | work hexchange => rfl

end Session

namespace Machine

variable {program : Program} {machine next : Machine}

/-! ## Programs that end -/

/-- The steps that may still be ahead.  A machine that is about to take a value has used up what it
had before; each value left is good for one more way through the program. -/
def ahead (program : Program) (machine : Machine) : Nat :=
  machine.session.pending.length * program.size +
    if program.opAt? machine.position = some .inbox then 0 else program.size - machine.position

theorem ahead_le (program : Program) (machine : Machine) :
    machine.ahead program ≤
      machine.session.pending.length * program.size + (program.size - machine.position) := by
  unfold ahead
  split <;> omega

theorem ahead_of_inbox (hop : program.opAt? machine.position = some .inbox) :
    machine.ahead program = machine.session.pending.length * program.size := by
  rw [ahead, if_pos hop, Nat.add_zero]

theorem ahead_of_ne {op : Op} (hop : program.opAt? machine.position = some op)
    (hinbox : op ≠ .inbox) :
    machine.ahead program =
      machine.session.pending.length * program.size + (program.size - machine.position) := by
  rw [ahead, hop, if_neg (by simpa using hinbox)]

/-- Going forward without taking a value leaves less ahead. -/
theorem ahead_lt_of_forward {op : Op} (hop : program.opAt? machine.position = some op)
    (hinbox : op ≠ .inbox) (hpending : next.session.pending = machine.session.pending)
    (hforward : machine.position < next.position) :
    next.ahead program < machine.ahead program := by
  have hlt := Program.lt_size_of_opAt? hop
  have hle := ahead_le program next
  rw [hpending] at hle
  rw [ahead_of_ne hop hinbox]
  omega

/-- **Every step that goes on leaves less ahead.** -/
theorem ahead_lt (hloops : program.LoopsTakeInput)
    (h : machine.step program = (.running, next)) :
    next.ahead program < machine.ahead program := by
  cases stepped_of_step h with
  | @advance op session hop hdoes =>
    by_cases hinbox : op = .inbox
    · subst hinbox
      have hlt := Program.lt_size_of_opAt? hop
      have hle := ahead_le program ⟨session, machine.position + 1, machine.steps + 1⟩
      cases hdoes with
      | take hpending =>
        rw [ahead_of_inbox hop, hpending, List.length_cons, Nat.succ_mul]
        simp only at hle
        omega
    · exact ahead_lt_of_forward hop hinbox (hdoes.pending_eq hinbox) (Nat.lt_succ_self _)
  | pass hop hdoes =>
    cases hdoes with
    | stay hjump => exact ahead_lt_of_forward hop (by simp) rfl (Nat.lt_succ_self _)
  | @jump op target place hop hdoes hresolve =>
    cases hdoes with
    | go hjump =>
      by_cases hforward : machine.position < place
      · exact ahead_lt_of_forward hop (by simp) rfl hforward
      · -- a jump back: the machine is about to take a value
        have hlt := Program.lt_size_of_opAt? hop
        have hplace := hloops _ hlt target (by rw [hop]; rfl) place hresolve (by omega)
        rw [ahead_of_ne hop (by simp), ahead_of_inbox hplace]
        exact Nat.lt_add_of_pos_right (Nat.sub_pos_of_lt hlt)

/-- **Programs whose jumps back go to an operation that takes a value always end.**  At most as
many steps go on as there are instructions, once and again for each value in the in-tray; the step
after them ends the run, and the run is found with any limit beyond them. -/
theorem ends_of_loopsTakeInput (hloops : program.LoopsTakeInput) (session : Session) :
    ∃ n ≤ (session.pending.length + 1) * program.size, ∃ ending last,
      EndsAfter program n (start session) ending last ∧
        ∀ limit, run? program limit (start session) =
          if n < limit then some (ending, last) else none := by
  have hends := exists_endsAfter_of_measure (ahead program) (fun _ _ => ahead_lt hloops)
    (start session)
  obtain ⟨n, hn, ending, last, hends⟩ := hends
  refine ⟨n, ?_, ending, last, hends, hends.run?_eq⟩
  have hle : (start session).ahead program ≤
      session.pending.length * program.size + (program.size - 0) := ahead_le program _
  rw [Nat.succ_mul]
  omega

/-- Two operations that take values, with jumps back to either and one forward. -/
def twoLoops : Program :=
  ⟨#[⟨.inbox, some "a", none⟩, ⟨.jump (some .zero) "b", none, none⟩, ⟨.jump none "a", none, none⟩,
    ⟨.inbox, some "b", none⟩, ⟨.jump (some .negative) "a", none, none⟩,
    ⟨.jump none "b", none, none⟩], [("a", 0), ("b", 3)]⟩

/-- Three values to take, of which the first two lead from one loop to the other and back. -/
def threeValues : Session :=
  Session.start 0 [.number Number.zero, .number Number.minusOne, .character 'a'] []

theorem ends_of_loopsTakeInput_twoLoops :
    twoLoops.LoopsTakeInput ∧
    ∃ n ≤ (3 + 1) * 6, ∃ ending last,
      EndsAfter twoLoops n (start threeValues) ending last ∧
        ∀ limit, run? twoLoops limit (start threeValues) =
          if n < limit then some (ending, last) else none := by
  have hloops : twoLoops.LoopsTakeInput := by decide
  exact ⟨hloops, ends_of_loopsTakeInput hloops threeValues⟩

/-! ## Steps that are counted -/

/-- Whether the next step is counted: it comes to an operation that is no jump, or to a jump that
is taken. -/
def counts (program : Program) (machine : Machine) : Bool :=
  match program.opAt? machine.position with
  | none => false
  | some (.jump test _) =>
    match machine.session.takesJump test with
    | .ok taken => taken
    | .error _ => false
  | some _ => true

/-- How many of the first `n` steps are counted. -/
def countedSteps (program : Program) (n : Nat) (machine : Machine) : Nat :=
  (List.range n).countP fun i => (after program i machine).counts program

theorem countedSteps_succ (program : Program) (n : Nat) (machine : Machine) :
    countedSteps program (n + 1) machine = countedSteps program n machine +
      if (after program n machine).counts program then 1 else 0 := by
  unfold countedSteps
  rw [List.range_succ, List.countP_append, List.countP_singleton]

/-- What a run has done by `n` steps, all of which went on.  Between two steps that are counted
there are no more than the program has instructions; operations done and jumps taken are counted,
and nothing else is; every value taken and every value put out has cost a step. -/
structure Metered (program : Program) (session : Session) (n : Nat) (machine : Machine) :
    Prop where
  position_le : machine.position ≤ program.size
  steps_made : n ≤ machine.steps * (program.size + 1) + machine.position
  steps_counted : machine.steps = countedSteps program n (start session)
  moves_counted : ∃ inputs outputs, session.pending = inputs ++ machine.session.pending ∧
    machine.session.output.toList = session.output.toList ++ outputs ∧
      inputs.length + outputs.length ≤ machine.steps

theorem metered_start (program : Program) (session : Session) :
    Metered program session 0 (start session) :=
  ⟨Nat.zero_le _, Nat.zero_le _, rfl, [], [], rfl, (List.append_nil _).symm, Nat.le_refl 0⟩

theorem counts_of_does_next {op : Op} {session : Session}
    (hop : program.opAt? machine.position = some op)
    (hdoes : machine.session.Does op .next session) : machine.counts program = true := by
  rw [counts, hop]
  cases hdoes <;> rfl

theorem counts_of_takesJump {test : Option Test} {target : String} {taken : Bool}
    (hop : program.opAt? machine.position = some (.jump test target))
    (hjump : machine.session.takesJump test = .ok taken) : machine.counts program = taken := by
  rw [counts, hop]
  simp only [hjump]

/-- **Every step that goes on keeps the meter right**, as long as no label is bound beyond the end
of the program. -/
theorem Metered.step {session : Session} {n : Nat}
    (hbound : ∀ label place, program.resolve label = some place → place ≤ program.size)
    (h : Metered program session n (after program n (start session)))
    (hstep : (after program n (start session)).step program = (.running, next)) :
    Metered program session (n + 1) next := by
  obtain ⟨hposition, hmade, hcounted, inputs, outputs, hinputs, houtputs, hmoves⟩ := h
  have hcount := countedSteps_succ program n (start session)
  rw [← hcounted] at hcount
  generalize after program n (start session) = machine at *
  cases stepped_of_step hstep with
  | advance hop hdoes =>
    have hlt := Program.lt_size_of_opAt? hop
    obtain ⟨inputs', outputs', hinputs', houtputs', hone⟩ := hdoes.one_move
    rw [counts_of_does_next hop hdoes, if_pos rfl] at hcount
    refine ⟨hlt, ?_, hcount.symm, inputs ++ inputs', outputs ++ outputs', ?_, ?_, ?_⟩
    · simp only [Nat.succ_mul]
      omega
    · rw [List.append_assoc, ← hinputs', hinputs]
    · rw [← List.append_assoc, ← houtputs, houtputs']
    · simp only [List.length_append]
      omega
  | pass hop hdoes =>
    have hlt := Program.lt_size_of_opAt? hop
    cases hdoes with
    | stay hjump =>
      rw [counts_of_takesJump hop hjump, if_neg Bool.false_ne_true] at hcount
      refine ⟨hlt, ?_, hcount.symm, inputs, outputs, hinputs, houtputs, hmoves⟩
      -- the step is free, but the position is one further
      simp only
      omega
  | jump hop hdoes hresolve =>
    have hlt := Program.lt_size_of_opAt? hop
    cases hdoes with
    | go hjump =>
      rw [counts_of_takesJump hop hjump, if_pos rfl] at hcount
      refine ⟨hbound _ _ hresolve, ?_, hcount.symm, inputs, outputs, hinputs, houtputs,
        Nat.le_succ_of_le hmoves⟩
      -- wherever the jump goes, the count pays for one way through the program
      simp only [Nat.succ_mul]
      omega

/-- **Free steps cannot loop.**  As long as a run goes on its position is at most at the end of the
program, and for each step that is counted it has made at most one more step than the program has
instructions.  Exactly the operations done and the jumps taken are counted, so every value taken or
put out has cost a step. -/
theorem metered_of_goesOn {entries : List Entry}
    (hprogram : Program.ofEntries entries = .ok program) {session : Session} {n : Nat}
    (hgoes : GoesOn program n (start session)) :
    Metered program session n (after program n (start session)) := by
  refine hgoes.induct (metered_start program session) ?_
  intro i _ hmetered next hstep
  exact hmetered.step (fun _ _ => Program.resolve_le_size hprogram) hstep

/-- Takes a value, goes back for another one if it is zero or below, puts it out and jumps to the
end. -/
def sifting : List Entry :=
  [Entry.mark "a", Entry.ofOp .inbox, Entry.ofOp (.jump (some .zero) "a"),
    Entry.ofOp (.jump (some .negative) "a"), Entry.ofOp .outbox, Entry.ofOp (.jump none "b"),
    Entry.mark "b"]

/-- The program of these entries. -/
def sifted : Program :=
  ⟨#[⟨.inbox, some "a", none⟩, ⟨.jump (some .zero) "a", none, none⟩,
    ⟨.jump (some .negative) "a", none, none⟩, ⟨.outbox, none, none⟩,
    ⟨.jump none "b", none, none⟩], [("a", 0), ("b", 5)]⟩

/-- A value that is passed over and one that is put out. -/
def zeroAndOne : Session :=
  Session.start 0 [.number Number.zero, .number Number.one] [.number Number.one]

theorem metered_of_goesOn_sifting :
    Program.ofEntries sifting = .ok sifted ∧ GoesOn sifted 7 (start zeroAndOne) ∧
      (after sifted 7 (start zeroAndOne)).steps = 5 ∧
      Metered sifted zeroAndOne 7 (after sifted 7 (start zeroAndOne)) := by
  have hprogram : Program.ofEntries sifting = .ok sifted := rfl
  have hgoes : GoesOn sifted 7 (start zeroAndOne) := by decide
  exact ⟨hprogram, hgoes, by decide, metered_of_goesOn hprogram hgoes⟩

end Machine

end Clerk
