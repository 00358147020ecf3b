import Clerk.Proofs.Transitions

/-!
# What a fault or a halt leaves

An operation that cannot be carried out has changed nothing when this is found, and a halt changes
nothing at all, so a step that ends a run can be made again and says the same.  There are two
exceptions, each with its own fault: a value that is expected and does not come is dropped, and a
jump to a label that is not bound is counted.

* `Machine.afterFault` — what a fault leaves;
* `Machine.eq_afterFault`, `Machine.eq_of_halt` — a step that ends the run leaves nothing else;
* `Machine.step_again_of_fault`, `Machine.trace_of_fault` — a fault comes again, now and later;
* `Machine.step_ended_keeps` — all of it together.
-/

set_option autoImplicit false

namespace Clerk

namespace Machine

variable {program : Program} {machine last : Machine} {cause : Fault} {kind : Halt}

/-- What a fault leaves of a machine: all of it but the value that was missed, and with the jump
that led nowhere counted. -/
def afterFault (machine : Machine) : Fault → Machine
  | .mismatch _ _ =>
    { machine with session := { machine.session with expected := machine.session.expected.tail } }
  | .noSuchLabel _ => { machine with steps := machine.steps + 1 }
  | _ => machine

/-! ## The machine at the end -/

theorem afterFault_of_plain (h : cause.plain = true) : machine.afterFault cause = machine := by
  cases cause with
  | mismatch value held => cases h
  | noSuchLabel label => cases h
  | _ => rfl

/-- The value that is missed is the next one expected. -/
theorem expected_of_mismatch {value held : Value}
    (h : machine.step program = (.ended (.fault (.mismatch value held)), last)) :
    machine.session.expected = value :: last.session.expected := by
  cases stepped_of_step h with
  | fault hop hdoes =>
    cases hdoes with
    | miss hheld hexpected hother => exact hexpected
    | refuse hexchange => cases Session.plain_of_exchange hexchange
    | doubt hjump => cases Session.plain_of_takesJump hjump

/-- **A fault leaves everything** but the value that was missed and the count of a jump that led
nowhere. -/
theorem eq_afterFault (h : machine.step program = (.ended (.fault cause), last)) :
    last = machine.afterFault cause := by
  cases stepped_of_step h with
  | stray hop hdoes hresolve => rfl
  | fault hop hdoes =>
    cases hdoes with
    | miss hheld hexpected hother =>
      rw [afterFault, hexpected]
      rfl
    | holdNothing hheld => rfl
    | expectNothing hheld hexpected => rfl
    | refuse hexchange => rw [afterFault_of_plain (Session.plain_of_exchange hexchange)]
    | doubt hjump => rw [afterFault_of_plain (Session.plain_of_takesJump hjump)]

/-- **A halt leaves everything.** -/
theorem eq_of_halt (h : machine.step program = (.ended (.halt kind), last)) : last = machine := by
  cases stepped_of_step h with
  | finish hop => rfl
  | exhaust hop hdoes => rfl

/-! ## Going on after the end -/

/-- A fault that misses no value comes again when the step is made again. -/
theorem step_again_of_fault (h : machine.step program = (.ended (.fault cause), last))
    (hmiss : ∀ value held, cause ≠ .mismatch value held) :
    last.step program = (.ended (.fault cause), last.afterFault cause) := by
  cases stepped_of_step h with
  | stray hop hdoes hresolve =>
    -- the count is one higher and the jump is the same
    exact Stepped.step_eq (.stray hop hdoes hresolve)
  | fault hop hdoes =>
    obtain rfl := hdoes.eq_self (by simp) (by simpa using hmiss)
    rw [← eq_afterFault h]
    exact h

theorem trace_of_fault (h : machine.step program = (.ended (.fault cause), last))
    (hmiss : ∀ value held, cause ≠ .mismatch value held) (n : Nat) :
    ∀ state ∈ trace program n last, state.1 = .ended (.fault cause) := by
  induction n generalizing machine last with
  | zero =>
    intro state hmem
    cases hmem
  | succ n ih =>
    have hagain := step_again_of_fault h hmiss
    rw [trace, hagain]
    exact List.forall_mem_cons.2 ⟨rfl, ih hagain⟩

theorem trace_of_halt (h : machine.step program = (.ended (.halt kind), machine)) (n : Nat) :
    trace program n machine = List.replicate n (.ended (.halt kind), machine) := by
  induction n with
  | zero => rfl
  | succ n ih => rw [trace, h, ih, List.replicate_succ]

/-- **Faults and halts leave the machine as it was.**  Every fault arises at run time; of all that
the machine consists of only the expected values differ after it, by the one that was missed, or
the count of steps, by the jump that led nowhere; and every later step meets the same fault unless
a value was missed.  After a halt nothing differs, and every later step halts alike. -/
theorem step_ended_keeps (program : Program) (machine : Machine) :
    (∀ cause last, machine.step program = (.ended (.fault cause), last) →
      (Error.fault cause).category = .runtime ∧ last = machine.afterFault cause ∧
        (∀ value held, cause = .mismatch value held →
          machine.session.expected = value :: last.session.expected) ∧
        ((∀ value held, cause ≠ .mismatch value held) →
          ∀ n, ∀ state ∈ trace program n last, state.1 = .ended (.fault cause))) ∧
    ∀ kind last, machine.step program = (.ended (.halt kind), last) →
      last = machine ∧
        ∀ n, trace program n last = List.replicate n (.ended (.halt kind), last) := by
  refine ⟨fun cause last h => ⟨rfl, eq_afterFault h, ?_, trace_of_fault h⟩, fun kind last h => ?_⟩
  · rintro value held rfl
    exact expected_of_mismatch h
  · obtain rfl := eq_of_halt h
    exact ⟨rfl, trace_of_halt h⟩

/-- Puts out what it holds and jumps to a label that is nowhere. -/
def straying : Program :=
  ⟨#[⟨.outbox, none, none⟩, ⟨.jump none "a", none, none⟩], []⟩

/-- A machine that holds one character while another is expected. -/
def holdingOther (position : Nat) : Machine :=
  ⟨{ Session.start 1 [] [.character 'b', .character 'a'] with register := .character 'a' },
    position, 7⟩

theorem step_ended_keeps_straying :
    ((holdingOther 0).session.expected = .character 'b' ::
        ((holdingOther 0).step straying).2.session.expected ∧
      ((holdingOther 0).step straying).2 =
        (holdingOther 0).afterFault (.mismatch (.character 'b') (.character 'a'))) ∧
    (∀ n, ∀ state ∈ trace straying n ((holdingOther 1).step straying).2,
      state.1 = .ended (.fault (.noSuchLabel "a"))) ∧
    ∀ n, trace straying n (holdingOther 2) =
      List.replicate n (.ended (.halt .endOfProgram), holdingOther 2) := by
  obtain ⟨-, hlast, hmissed, -⟩ := (step_ended_keeps straying (holdingOther 0)).1 _ _ rfl
  obtain ⟨-, -, -, hagain⟩ := (step_ended_keeps straying (holdingOther 1)).1 _ _ rfl
  refine ⟨⟨hmissed _ _ rfl, hlast⟩, hagain (by simp), ?_⟩
  exact ((step_ended_keeps straying (holdingOther 2)).2 _ _ rfl).2

end Machine

end Clerk
