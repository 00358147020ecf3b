import Clerk.Machine
import Clerk.Proofs.Faults
import Clerk.Proofs.Folding

/-!
# Jumps under renaming

An operation whose jump is renamed has the same effect up to the label that a taken jump names.
Two programs whose jumps differ in names only, and agree on where they go, run alike; only the
label that a fault names may differ, and it does not if unbound labels keep their names.

* `Session.effect_retarget` — the effect of a renamed operation;
* `Machine.trace_of_renamedJumps` — such programs run alike, up to the label that a fault names;
* `Machine.trace_eq_of_retarget`, `Machine.run?_eq_of_retarget` — they have the same traces and the
  same runs if unbound labels keep their names.
-/

set_option autoImplicit false

namespace Clerk

/-- The effect with the label of a taken jump replaced. -/
def Effect.retarget (rename : String → String) : Effect → Effect
  | .goto target => .goto (rename target)
  | effect => effect

theorem Session.effect_retarget (session : Session) (rename : String → String) (op : Op) :
    session.effect (op.retarget rename) =
      ((session.effect op).1.retarget rename, (session.effect op).2) := by
  cases op with
  | inbox =>
    simp only [Op.retarget, Session.effect]
    split <;> rfl
  | outbox =>
    simp only [Op.retarget, Session.effect]
    split <;> rfl
  | cell kind address =>
    simp only [Op.retarget, Session.effect]
    split <;> rfl
  | jump test target =>
    simp only [Op.retarget, Session.effect]
    split <;> rfl

/-- Only a jump is taken, and it goes to its target. -/
theorem Session.target_of_effect {session next : Session} {op : Op} {target : String}
    (h : session.effect op = (.goto target, next)) : op.target? = some target := by
  cases Session.does_of_effect h
  rfl

/-- The fault with the label that it names, if it does, replaced. -/
def Fault.relabel (rename : String → String) : Fault → Fault
  | .noSuchLabel label => .noSuchLabel (rename label)
  | cause => cause

/-- What a step says, with the label that a fault names replaced. -/
def Outcome.relabel (rename : String → String) : Outcome → Outcome
  | .ended (.fault cause) => .ended (.fault (cause.relabel rename))
  | outcome => outcome

theorem Fault.relabel_of_ne {rename : String → String} {cause : Fault}
    (h : ∀ label, cause = .noSuchLabel label → rename label = label) :
    cause.relabel rename = cause := by
  cases cause with
  | noSuchLabel label => rw [relabel, h label rfl]
  | _ => rfl

/-- The jumps of `q` are those of `p` with other names, and go to the same places. -/
structure RenamedJumps (p q : Program) (rename : String → String) : Prop where
  ops : q.instructions.toList.map Instruction.op =
    (p.instructions.toList.map Instruction.op).map (Op.retarget rename)
  resolve : ∀ instruction ∈ p.instructions, ∀ target, instruction.op.target? = some target →
    q.resolve (rename target) = p.resolve target

/-- Besides, a jump to a label that is not bound keeps its name. -/
structure SameJumps (p q : Program) (rename : String → String) : Prop
    extends RenamedJumps p q rename where
  unresolved : ∀ target, p.resolve target = none → rename target = target

namespace Machine

/-- What a step makes of the effect of its operation. -/
def follow (program : Program) (machine : Machine) (effect : Effect) (session : Session) :
    Outcome × Machine :=
  match effect with
  | .next => (.running, ⟨session, machine.position + 1, machine.steps + 1⟩)
  | .pass => (.running, ⟨session, machine.position + 1, machine.steps⟩)
  | .goto target =>
    match program.resolve target with
    | some place => (.running, ⟨session, place, machine.steps + 1⟩)
    | none =>
      (.ended (.fault (.noSuchLabel target)), ⟨session, machine.position, machine.steps + 1⟩)
  | .exhausted => (.ended (.halt .inputExhausted), ⟨session, machine.position, machine.steps⟩)
  | .fault cause => (.ended (.fault cause), ⟨session, machine.position, machine.steps⟩)

theorem step_of_none {program : Program} {machine : Machine}
    (h : program.instructions[machine.position]? = none) :
    machine.step program = (.ended (.halt .endOfProgram), machine) := by
  obtain ⟨session, position, steps⟩ := machine
  rw [step, show program.instructions[position]? = none from h]

theorem step_of_some {program : Program} {machine : Machine} {instruction : Instruction}
    (h : program.instructions[machine.position]? = some instruction) :
    machine.step program = machine.follow program (machine.session.effect instruction.op).1
      (machine.session.effect instruction.op).2 := by
  obtain ⟨session, position, steps⟩ := machine
  rw [step, show program.instructions[position]? = some instruction from h]
  simp only
  rcases session.effect instruction.op with ⟨effect, next⟩
  cases effect <;> rfl

variable {p q : Program} {rename : String → String}

/-- **A step of a program whose jumps are renamed** is the same but for the label that a fault
names. -/
theorem step_of_renamedJumps (h : RenamedJumps p q rename) (machine : Machine) :
    machine.step q = ((machine.step p).1.relabel rename, (machine.step p).2) := by
  have hops : q.instructions[machine.position]?.map Instruction.op =
      (p.instructions[machine.position]?.map Instruction.op).map (Op.retarget rename) := by
    rw [← Array.getElem?_toList, ← Array.getElem?_toList, ← List.getElem?_map, h.ops,
      List.getElem?_map, List.getElem?_map]
  cases hp : p.instructions[machine.position]? with
  | none =>
    rw [hp] at hops
    rw [step_of_none hp, step_of_none (Option.map_eq_none_iff.1 hops)]
    rfl
  | some instruction =>
    rw [hp] at hops
    obtain ⟨other, hq, hop⟩ := Option.map_eq_some_iff.1 hops
    rw [step_of_some hp, step_of_some hq, hop, Session.effect_retarget]
    rcases heffect : machine.session.effect instruction.op with ⟨effect, next⟩
    cases effect with
    | goto target =>
      have hmem : instruction ∈ p.instructions := Array.mem_of_getElem? hp
      have hresolve := h.resolve instruction hmem target (Session.target_of_effect heffect)
      simp only [follow, Effect.retarget, hresolve]
      cases p.resolve target <;> rfl
    | fault cause =>
      -- the fault of an operation names no label
      have hcause : cause.relabel rename = cause := by
        refine Fault.relabel_of_ne fun label hlabel => ?_
        have hne := machine.session.effect_ne_noSuchLabel instruction.op label
        rw [heffect, hlabel] at hne
        exact absurd rfl hne
      simp only [follow, Effect.retarget, Outcome.relabel, hcause]
    | next => rfl
    | pass => rfl
    | exhausted => rfl

theorem trace_of_renamedJumps (h : RenamedJumps p q rename) (n : Nat) (machine : Machine) :
    trace q n machine =
      (trace p n machine).map fun state => (state.1.relabel rename, state.2) := by
  induction n generalizing machine with
  | zero => rfl
  | succ n ih => simp only [trace, List.map_cons, step_of_renamedJumps h, ih]

/-- A step that faults on a label has not found it. -/
theorem resolve_of_noSuchLabel {machine last : Machine} {label : String}
    (h : machine.step p = (.ended (.fault (.noSuchLabel label)), last)) :
    p.resolve label = none := by
  cases hget : p.instructions[machine.position]? with
  | none =>
    rw [step_of_none hget] at h
    cases h
  | some instruction =>
    rw [step_of_some hget] at h
    rcases heffect : machine.session.effect instruction.op with ⟨effect, next⟩
    rw [heffect] at h
    cases effect with
    | goto target =>
      simp only [follow] at h
      split at h
      · cases h
      · rename_i hresolve
        cases h
        exact hresolve
    | fault cause =>
      cases h
      have hne := machine.session.effect_ne_noSuchLabel instruction.op label
      rw [heffect] at hne
      exact absurd rfl hne
    | next => cases h
    | pass => cases h
    | exhausted => cases h

theorem step_eq_of_retarget (h : SameJumps p q rename) (machine : Machine) :
    machine.step q = machine.step p := by
  rw [step_of_renamedJumps h.toRenamedJumps]
  rcases hstep : machine.step p with ⟨outcome, next⟩
  cases outcome with
  | running => rfl
  | ended ending =>
    cases ending with
    | halt kind => rfl
    | fault cause =>
      have hcause : cause.relabel rename = cause := by
        refine Fault.relabel_of_ne fun label hlabel => ?_
        subst hlabel
        exact h.unresolved label (resolve_of_noSuchLabel hstep)
      simp only [Outcome.relabel, hcause]

/-- **Programs with the same jumps have the same traces.** -/
theorem trace_eq_of_retarget (h : SameJumps p q rename) (n : Nat) (machine : Machine) :
    trace q n machine = trace p n machine := by
  induction n generalizing machine with
  | zero => rfl
  | succ n ih => rw [trace, trace, step_eq_of_retarget h, ih]

theorem run?_eq_of_retarget (h : SameJumps p q rename) (limit : Nat) (machine : Machine) :
    run? q limit machine = run? p limit machine := by
  induction limit generalizing machine with
  | zero => rfl
  | succ limit ih =>
    rw [run?, run?, step_eq_of_retarget h]
    split
    · exact ih _
    · rfl

end Machine

end Clerk
