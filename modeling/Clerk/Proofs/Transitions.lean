import Clerk.Proofs.Jumps

/-!
# What a step can do

Everything that a step can do, with the condition of each case, and what this comes to over any
number of steps.

* `Machine.Stepped` — the cases of a step;
* `Machine.step_stepped`, `Machine.Stepped.step_eq` — a step is one of them, and which one is
  decided by its condition;
* `Machine.after` — the machine after a number of steps;
* `Machine.GoesOn` — a run that has not ended yet, with its induction;
* `Machine.EndsAfter` — a run that ends, and what `Machine.run?` makes of it.
-/

set_option autoImplicit false

namespace Clerk

/-- The operation at a position. -/
def Program.opAt? (program : Program) (position : Nat) : Option Op :=
  program.instructions[position]?.map Instruction.op

namespace Machine

/-! ## One step -/

/-- What a step can say, with the machine after it.  A jump that is taken counts even if its label
is not bound (`stray`); one that is not taken does not (`pass`). -/
inductive Stepped (program : Program) (machine : Machine) : Outcome → Machine → Prop
  | finish (hop : program.opAt? machine.position = none) :
    Stepped program machine (.ended (.halt .endOfProgram)) machine
  | advance {op : Op} {next : Session}
      (hop : program.opAt? machine.position = some op)
      (hdoes : machine.session.Does op .next next) :
    Stepped program machine .running ⟨next, machine.position + 1, machine.steps + 1⟩
  | pass {op : Op}
      (hop : program.opAt? machine.position = some op)
      (hdoes : machine.session.Does op .pass machine.session) :
    Stepped program machine .running { machine with position := machine.position + 1 }
  | jump {op : Op} {target : String} {place : Nat}
      (hop : program.opAt? machine.position = some op)
      (hdoes : machine.session.Does op (.goto target) machine.session)
      (hresolve : program.resolve target = some place) :
    Stepped program machine .running
      { machine with position := place, steps := machine.steps + 1 }
  | stray {op : Op} {target : String}
      (hop : program.opAt? machine.position = some op)
      (hdoes : machine.session.Does op (.goto target) machine.session)
      (hresolve : program.resolve target = none) :
    Stepped program machine (.ended (.fault (.noSuchLabel target)))
      { machine with steps := machine.steps + 1 }
  | exhaust {op : Op}
      (hop : program.opAt? machine.position = some op)
      (hdoes : machine.session.Does op .exhausted machine.session) :
    Stepped program machine (.ended (.halt .inputExhausted)) machine
  | fault {op : Op} {cause : Fault} {left : Session}
      (hop : program.opAt? machine.position = some op)
      (hdoes : machine.session.Does op (.fault cause) left) :
    Stepped program machine (.ended (.fault cause)) { machine with session := left }

variable {program : Program} {machine next : Machine} {outcome : Outcome}

theorem step_of_opAt?_none (hop : program.opAt? machine.position = none) :
    machine.step program = (.ended (.halt .endOfProgram), machine) :=
  step_of_none (Option.map_eq_none_iff.1 hop)

theorem step_of_opAt? {op : Op} (hop : program.opAt? machine.position = some op) :
    machine.step program =
      machine.follow program (machine.session.effect op).1 (machine.session.effect op).2 := by
  obtain ⟨instruction, hget, rfl⟩ := Option.map_eq_some_iff.1 hop
  exact step_of_some hget

/-- **A step is one of the cases.** -/
theorem step_stepped (program : Program) (machine : Machine) :
    Stepped program machine (machine.step program).1 (machine.step program).2 := by
  cases hop : program.opAt? machine.position with
  | none =>
    rw [step_of_opAt?_none hop]
    exact .finish hop
  | some op =>
    rcases heffect : machine.session.effect op with ⟨effect, session⟩
    have hdoes := Session.does_of_effect heffect
    rw [step_of_opAt? hop, heffect]
    cases effect with
    | next => exact .advance hop hdoes
    | pass =>
      obtain rfl := hdoes.eq_self (by simp) (by simp)
      exact .pass hop hdoes
    | goto target =>
      obtain rfl := hdoes.eq_self (by simp) (by simp)
      simp only [follow]
      split
      · exact .jump hop hdoes ‹_›
      · exact .stray hop hdoes ‹_›
    | exhausted =>
      obtain rfl := hdoes.eq_self (by simp) (by simp)
      exact .exhaust hop hdoes
    | fault cause => exact .fault hop hdoes

theorem stepped_of_step (h : machine.step program = (outcome, next)) :
    Stepped program machine outcome next := by
  have hstepped := step_stepped program machine
  rwa [h] at hstepped

/-- **The condition of a case decides the step.** -/
theorem Stepped.step_eq (h : Stepped program machine outcome next) :
    machine.step program = (outcome, next) := by
  cases h with
  | finish hop => exact step_of_opAt?_none hop
  | advance hop hdoes => rw [step_of_opAt? hop, hdoes.effect_eq]; rfl
  | pass hop hdoes => rw [step_of_opAt? hop, hdoes.effect_eq]; rfl
  | jump hop hdoes hresolve => rw [step_of_opAt? hop, hdoes.effect_eq, follow, hresolve]
  | stray hop hdoes hresolve => rw [step_of_opAt? hop, hdoes.effect_eq, follow, hresolve]
  | exhaust hop hdoes => rw [step_of_opAt? hop, hdoes.effect_eq]; rfl
  | fault hop hdoes => rw [step_of_opAt? hop, hdoes.effect_eq]; rfl

/-! ## Any number of steps -/

/-- The machine after `n` steps, whatever they say. -/
def after (program : Program) : Nat → Machine → Machine
  | 0, machine => machine
  | n + 1, machine => after program n (machine.step program).2

theorem after_succ (program : Program) (n : Nat) (machine : Machine) :
    after program (n + 1) machine = ((after program n machine).step program).2 := by
  induction n generalizing machine with
  | zero => rfl
  | succ n ih => exact ih (machine.step program).2

theorem trace_succ (program : Program) (n : Nat) (machine : Machine) :
    trace program (n + 1) machine =
      trace program n machine ++ [(after program n machine).step program] := by
  induction n generalizing machine with
  | zero => rfl
  | succ n ih => exact congrArg _ (ih (machine.step program).2)

/-- None of the first `n` steps ends the run. -/
def GoesOn (program : Program) (n : Nat) (machine : Machine) : Prop :=
  ∀ state ∈ trace program n machine, state.1 = .running

instance (program : Program) (n : Nat) (machine : Machine) :
    Decidable (GoesOn program n machine) := by
  unfold GoesOn
  infer_instance

theorem goesOn_succ_iff {n : Nat} :
    GoesOn program (n + 1) machine ↔ GoesOn program n machine ∧
      (after program n machine).step program = (.running, after program (n + 1) machine) := by
  unfold GoesOn
  rw [trace_succ, List.forall_mem_append, List.forall_mem_singleton, after_succ]
  refine and_congr_right fun _ => ⟨fun h => ?_, fun h => ?_⟩
  · rw [← h]
  · rw [h]

theorem goesOn_cons {n : Nat} (hstep : machine.step program = (.running, next))
    (h : GoesOn program n next) : GoesOn program (n + 1) machine := by
  unfold GoesOn
  rw [trace, hstep]
  exact List.forall_mem_cons.2 ⟨rfl, h⟩

/-- **Induction along a run**: what holds at its start and is kept by each step that goes on holds
as long as the run has not ended. -/
theorem GoesOn.induct {n : Nat} (h : GoesOn program n machine) {holds : Nat → Machine → Prop}
    (hstart : holds 0 machine)
    (hstep : ∀ i, GoesOn program i machine → holds i (after program i machine) →
      ∀ next, (after program i machine).step program = (.running, next) → holds (i + 1) next) :
    holds n (after program n machine) := by
  induction n with
  | zero => exact hstart
  | succ n ih =>
    obtain ⟨hgoes, hlast⟩ := goesOn_succ_iff.1 h
    exact hstep n hgoes (ih hgoes) _ hlast

/-- The run goes on for `n` steps and ends at the next one. -/
structure EndsAfter (program : Program) (n : Nat) (machine : Machine) (ending : Ending)
    (last : Machine) : Prop where
  goesOn : GoesOn program n machine
  ends : (after program n machine).step program = (.ended ending, last)

variable {ending : Ending} {last : Machine}

/-- **A run that ends is found with any limit beyond its steps**, and with no other. -/
theorem EndsAfter.run?_eq {n : Nat} (h : EndsAfter program n machine ending last) (limit : Nat) :
    run? program limit machine = if n < limit then some (ending, last) else none := by
  induction limit generalizing n machine with
  | zero => rfl
  | succ limit ih =>
    cases n with
    | zero =>
      have hends : machine.step program = (.ended ending, last) := h.ends
      rw [run?, hends, if_pos (Nat.succ_pos limit)]
    | succ n =>
      obtain ⟨hfirst, hrest⟩ := List.forall_mem_cons.1 h.goesOn
      have hstep : machine.step program = (.running, (machine.step program).2) := by
        rw [← hfirst]
      rw [run?, hstep]
      simp only [Nat.succ_lt_succ_iff]
      exact ih ⟨hrest, h.ends⟩

/-- **A run ends if each step that goes on makes a measure smaller**, and then within as many
steps as the measure says. -/
theorem exists_endsAfter_of_measure (measure : Machine → Nat)
    (hless : ∀ machine next : Machine, machine.step program = (.running, next) →
      measure next < measure machine) (machine : Machine) :
    ∃ n ≤ measure machine, ∃ ending last, EndsAfter program n machine ending last := by
  induction hmeasure : measure machine using Nat.strongRecOn generalizing machine with
  | _ bound ih =>
    subst hmeasure
    rcases hstep : machine.step program with ⟨_ | ending, next⟩
    · obtain ⟨n, hn, ending, last, hends⟩ := ih _ (hless machine next hstep) next rfl
      have hafter : after program (n + 1) machine = after program n next := by
        rw [after, hstep]
      refine ⟨n + 1, Nat.lt_of_le_of_lt hn (hless machine next hstep), ending, last, ?_, ?_⟩
      · exact goesOn_cons hstep hends.goesOn
      · rw [hafter]
        exact hends.ends
    · refine ⟨0, Nat.zero_le _, ending, next, ?_, hstep⟩
      intro state hmem
      cases hmem

end Machine

end Clerk
