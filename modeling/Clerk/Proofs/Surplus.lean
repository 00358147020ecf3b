import Clerk.Proofs.Jumps

/-!
# What a run does not notice

Values that wait behind the input, values that are expected after all the others and cells beyond
the memory are surplus to a run until it asks for them.  A run that never does so is the same with
and without them, step by step, whatever jumps it takes and whatever it computes as an address.

* `Machine.step_onSession`, `Machine.trace_onSession` — a change of the session that no operation
  notices is carried along by a step and by a run;
* `Session.hides_extend` — an operation does not notice a surplus unless its fault or halt tells
  of it;
* `Machine.trace_surplus_trays` — a run does not depend on what it has not consumed;
* `Machine.trace_surplus_cells` — more memory never changes a run that stayed in bounds.
-/

set_option autoImplicit false

namespace Clerk

/-! ## Changes that are carried along -/

/-- The ending that an effect brings about by itself. -/
def Effect.ending? : Effect → Option Ending
  | .exhausted => some (.halt .inputExhausted)
  | .fault cause => some (.fault cause)
  | _ => none

/-- The operation does in the changed session what it does in the session itself. -/
def Session.Hides (change : Session → Session) (session : Session) (op : Op) : Prop :=
  (change session).effect op = ((session.effect op).1, change (session.effect op).2)

namespace Machine

variable {program : Program} {machine : Machine}

/-- The machine with its session changed. -/
def onSession (change : Session → Session) (machine : Machine) : Machine :=
  { machine with session := change machine.session }

theorem step_of_ending {instruction : Instruction} {ending : Ending}
    (hget : program.instructions[machine.position]? = some instruction)
    (h : (machine.session.effect instruction.op).1.ending? = some ending) :
    (machine.step program).1 = .ended ending := by
  rw [step_of_some hget]
  generalize (machine.session.effect instruction.op).1 = effect at h ⊢
  cases effect <;> cases h <;> rfl

/-- **A change that the next operation does not notice is carried along by the step.** -/
theorem step_onSession (change : Session → Session)
    (h : ∀ instruction, program.instructions[machine.position]? = some instruction →
      machine.session.Hides change instruction.op) :
    (machine.onSession change).step program =
      ((machine.step program).1, (machine.step program).2.onSession change) := by
  cases hget : program.instructions[machine.position]? with
  | none =>
    rw [step_of_none hget]
    exact step_of_none hget
  | some instruction =>
    have hhides : (change machine.session).effect instruction.op = _ := h instruction hget
    have hstep : (machine.onSession change).step program = _ := step_of_some hget
    rw [step_of_some hget, hstep]
    simp only [onSession, hhides]
    cases (machine.session.effect instruction.op).1 with
    | goto target =>
      simp only [follow]
      cases program.resolve target <;> rfl
    | next => rfl
    | pass => rfl
    | exhausted => rfl
    | fault cause => rfl

/-- **A change is carried along by a run as long as no step ends in a way that tells of it.** -/
theorem trace_onSession {change : Session → Session} (tells : Outcome → Prop)
    (hhides : ∀ session op, (∀ ending, (Session.effect session op).1.ending? = some ending →
      ¬ tells (.ended ending)) → session.Hides change op)
    {n : Nat} (hquiet : ∀ state ∈ trace program n machine, ¬ tells state.1) :
    trace program n (machine.onSession change) =
      (trace program n machine).map fun state => (state.1, state.2.onSession change) := by
  induction n generalizing machine with
  | zero => rfl
  | succ n ih =>
    simp only [trace, List.forall_mem_cons] at hquiet
    obtain ⟨hfirst, hrest⟩ := hquiet
    have hstep := step_onSession change fun instruction hget =>
      hhides machine.session instruction.op fun ending hending =>
        step_of_ending hget hending ▸ hfirst
    simp only [trace, List.map_cons, hstep, ih hrest]

end Machine

/-! ## Surplus -/

/-- What a session may have more than another: values in the in-tray, values expected, and empty
cells, each behind all others. -/
structure Surplus where
  input : List Value := []
  expected : List Value := []
  cells : Nat := 0

/-- The memory with more empty cells behind its own. -/
def Memory.grown (more : Nat) (memory : Memory) : Memory :=
  ⟨memory.cells ++ Array.replicate more .empty⟩

/-- The session with a surplus. -/
def Session.extend (surplus : Surplus) (session : Session) : Session :=
  { session with
    pending := session.pending ++ surplus.input
    expected := session.expected ++ surplus.expected
    memory := session.memory.grown surplus.cells }

/-- Whether a step ends because an address lies outside the memory. -/
def Outcome.outOfBounds : Outcome → Bool
  | .ended (.fault (.noSuchCell _)) => true
  | .ended (.fault (.noSuchPointer _)) => true
  | .ended (.fault (.danglingPointer _ _)) => true
  | _ => false

/-- Whether what a step says could be another with a surplus: the step has run out of what there
would be more of. -/
def Surplus.Tells (surplus : Surplus) (outcome : Outcome) : Prop :=
  outcome = .ended (.halt .inputExhausted) ∧ surplus.input ≠ [] ∨
    outcome = .ended (.fault .nothingExpected) ∧ surplus.expected ≠ [] ∨
      outcome.outOfBounds = true ∧ surplus.cells ≠ 0

namespace Memory

variable {memory : Memory} {slot : Nat}

theorem grown_zero (memory : Memory) : memory.grown 0 = memory := by
  simp [grown]

theorem grown_ofSize (more size : Nat) : (ofSize size).grown more = ofSize (size + more) := by
  simp [grown, ofSize]

theorem slot_grown (more : Nat) {address : Number} (h : memory.slot address = some slot) :
    (memory.grown more).slot address = some slot := by
  unfold Memory.slot at h ⊢
  split at h
  · rename_i hrange
    rw [if_pos, h]
    simp only [grown, size, Array.size_append] at hrange ⊢
    omega
  · cases h

theorem read_grown (more : Nat) (h : slot < memory.size) :
    (memory.grown more).read slot = memory.read slot := by
  unfold read grown
  rw [Array.getD_eq_getD_getElem?, Array.getD_eq_getD_getElem?, Array.getElem?_append_left h]

theorem write_grown (more : Nat) (h : slot < memory.size) (value : Value) :
    (memory.grown more).write slot value = (memory.write slot value).grown more := by
  unfold write grown
  rw [Array.setIfInBounds_append_left h]

end Memory

namespace Session

variable {surplus : Surplus} {session : Session}

/-! ## Addresses among more cells -/

theorem resolve_lt {address : Address} {slot : Nat} (h : session.resolve address = .ok slot) :
    slot < session.memory.size := by
  cases address with
  | direct index =>
    simp only [resolve] at h
    split at h
    · rename_i hslot
      cases h
      exact Memory.slot_lt hslot
    · cases h
  | indirect index =>
    simp only [resolve] at h
    split at h
    · cases h
    · split at h
      · split at h
        · rename_i hslot
          cases h
          exact Memory.slot_lt hslot
        · cases h
      · cases h

/-- An address that is not out of bounds means the same among more cells, also when it goes
through a pointer. -/
theorem resolve_extend {address : Address}
    (h : ∀ cause, session.resolve address = .error cause →
      Outcome.outOfBounds (.ended (.fault cause)) = true → surplus.cells = 0) :
    (session.extend surplus).resolve address = session.resolve address := by
  by_cases hcells : surplus.cells = 0
  · cases address <;> simp only [resolve, extend, hcells, Memory.grown_zero]
  · -- otherwise no slot on the way may be missing
    simp only [hcells, imp_false] at h
    cases address with
    | direct index =>
      simp only [resolve, extend] at h ⊢
      cases hslot : session.memory.slot index with
      | none => simp [hslot, Outcome.outOfBounds] at h
      | some slot => rw [Memory.slot_grown _ hslot]
    | indirect index =>
      simp only [resolve, extend] at h ⊢
      cases hslot : session.memory.slot index with
      | none => simp [hslot, Outcome.outOfBounds] at h
      | some pointer =>
        rw [hslot] at h
        rw [Memory.slot_grown _ hslot]
        simp only [Memory.read_grown _ (Memory.slot_lt hslot)] at h ⊢
        cases hread : session.memory.read pointer with
        | number target =>
          rw [hread] at h
          cases htarget : session.memory.slot target with
          | none => simp [htarget, Outcome.outOfBounds] at h
          | some slot => simp only [Memory.slot_grown _ htarget, htarget]
        | character c => rfl
        | empty => rfl

theorem exchange_extend {address : Address}
    (h : (session.extend surplus).resolve address = session.resolve address) (kind : CellOp) :
    (session.extend surplus).exchange kind address = session.exchange kind address := by
  unfold exchange
  rw [h]
  cases hresolve : session.resolve address with
  | error cause => rfl
  | ok slot =>
    have hread : (session.extend surplus).memory.read slot = session.memory.read slot :=
      Memory.read_grown _ (resolve_lt hresolve)
    simp only [bind, Except.bind, hread]
    rfl

/-- What an operation leaves in a cell it leaves in a cell of the memory. -/
theorem slot_lt_of_exchange {kind : CellOp} {address : Address} {slot : Nat}
    {register cell : Value} (h : session.exchange kind address = .ok (slot, register, cell)) :
    slot < session.memory.size := by
  unfold exchange at h
  cases hresolve : session.resolve address with
  | error cause =>
    rw [hresolve] at h
    cases h
  | ok found =>
    rw [hresolve] at h
    simp only [bind, Except.bind] at h
    split at h
    · cases h
    · cases h
      exact resolve_lt hresolve

/-! ## Operations with a surplus -/

theorem takeInput_extend (h : session.pending = [] → surplus.input = []) :
    (session.extend surplus).takeInput =
      (session.takeInput.1, session.takeInput.2.extend surplus) := by
  cases hpending : session.pending with
  | nil => simp [takeInput, extend, hpending, h hpending]
  | cons value rest => simp [takeInput, extend, hpending]

theorem emit_extend
    (h : session.register.isEmpty = false → session.expected = [] → surplus.expected = []) :
    (session.extend surplus).emit = (session.emit.1, session.emit.2.extend surplus) := by
  by_cases hheld : session.register.isEmpty = true
  · simp [emit, extend, hheld]
  · cases hexpected : session.expected with
    | nil =>
      have hnone := h (by simpa using hheld) hexpected
      simp [emit, extend, hheld, hexpected, hnone]
    | cons value rest =>
      by_cases hsame : value = session.register <;>
        simp [emit, extend, hheld, hexpected, hsame]

theorem perform_extend {kind : CellOp} {address : Address}
    (h : ∀ cause, session.resolve address = .error cause →
      Outcome.outOfBounds (.ended (.fault cause)) = true → surplus.cells = 0) :
    (session.extend surplus).perform kind address =
      ((session.perform kind address).1, (session.perform kind address).2.extend surplus) := by
  unfold perform
  rw [exchange_extend (resolve_extend h) kind]
  cases hexchange : session.exchange kind address with
  | error cause => rfl
  | ok found =>
    obtain ⟨slot, register, cell⟩ := found
    simp only [store, extend, Memory.write_grown _ (slot_lt_of_exchange hexchange)]

/-- **An operation does not notice a surplus** unless it ends in a way that tells of it. -/
theorem hides_extend {op : Op}
    (h : ∀ ending, (session.effect op).1.ending? = some ending →
      ¬ surplus.Tells (.ended ending)) :
    session.Hides (extend surplus) op := by
  unfold Hides
  cases op with
  | inbox =>
    rw [effect_inbox, effect_inbox, takeInput_extend]
    intro hpending
    have heffect : session.effect .inbox = (.exhausted, session) := by
      rw [effect_inbox, takeInput, hpending]
      rfl
    rw [heffect] at h
    exact Classical.byContradiction fun hinput => h _ rfl (Or.inl ⟨rfl, hinput⟩)
  | outbox =>
    rw [effect_outbox, effect_outbox, emit_extend]
    intro hheld hexpected
    have heffect : session.effect .outbox = (.fault .nothingExpected, session) := by
      rw [effect_outbox, emit, hheld, hexpected]
      rfl
    rw [heffect] at h
    exact Classical.byContradiction fun hmore => h _ rfl (Or.inr (Or.inl ⟨rfl, hmore⟩))
  | cell kind address =>
    rw [effect_cell, effect_cell, perform_extend]
    intro cause hcause hbounds
    have heffect : session.effect (.cell kind address) = (.fault cause, session) := by
      rw [effect_cell, perform, exchange, hcause]
      rfl
    rw [heffect] at h
    exact Classical.byContradiction fun hcells => h _ rfl (Or.inr (Or.inr ⟨hbounds, hcells⟩))
  | jump test target =>
    have hjump : (session.extend surplus).takesJump test = session.takesJump test := by
      cases test <;> rfl
    simp only [effect, hjump]
    split <;> rfl

/-! ## A surplus of one kind -/

theorem extend_input (more : List Value) :
    extend { input := more } =
      fun session => { session with pending := session.pending ++ more } := by
  funext session
  simp [extend, Memory.grown_zero]

theorem extend_expected (more : List Value) :
    extend { expected := more } =
      fun session => { session with expected := session.expected ++ more } := by
  funext session
  simp [extend, Memory.grown_zero]

theorem extend_cells (more : Nat) :
    extend { cells := more } =
      fun session => { session with memory := session.memory.grown more } := by
  funext session
  simp [extend]

/-- No operation changes the number of cells. -/
theorem effect_memory_size (session : Session) (op : Op) :
    (session.effect op).2.memory.size = session.memory.size := by
  rcases heffect : session.effect op with ⟨effect, next⟩
  cases does_of_effect heffect with
  | work hexchange => exact Memory.size_write _ _ _
  | _ => rfl

end Session

namespace Machine

variable {program : Program} {machine : Machine} {n : Nat}

/-! ## Runs with a surplus -/

/-- **A run is the same with a surplus** as long as no step tells of it. -/
theorem trace_extend (surplus : Surplus) {size : Nat} {input expected : List Value}
    (hquiet : ∀ state ∈ trace program n (start (Session.start size input expected)),
      ¬ surplus.Tells state.1) :
    trace program n (start (Session.start (size + surplus.cells) (input ++ surplus.input)
        (expected ++ surplus.expected))) =
      (trace program n (start (Session.start size input expected))).map
        fun state => (state.1, state.2.onSession (Session.extend surplus)) := by
  have hstart : start (Session.start (size + surplus.cells) (input ++ surplus.input)
      (expected ++ surplus.expected)) =
        (start (Session.start size input expected)).onSession (Session.extend surplus) := by
    simp only [start, onSession, Session.start, Session.extend, Memory.grown_ofSize]
  rw [hstart]
  exact trace_onSession surplus.Tells (fun _ _ => Session.hides_extend) hquiet

theorem step_memory_size (program : Program) (machine : Machine) :
    (machine.step program).2.session.memory.size = machine.session.memory.size := by
  cases hget : program.instructions[machine.position]? with
  | none => rw [step_of_none hget]
  | some instruction =>
    have hsize := machine.session.effect_memory_size instruction.op
    rw [step_of_some hget]
    unfold follow
    split
    case h_3 => split <;> exact hsize
    all_goals exact hsize

theorem trace_memory_size {state : Outcome × Machine} (hmem : state ∈ trace program n machine) :
    state.2.session.memory.size = machine.session.memory.size := by
  induction n generalizing machine with
  | zero => cases hmem
  | succ n ih =>
    rw [trace] at hmem
    rcases List.mem_cons.1 hmem with rfl | hmem
    · exact step_memory_size program machine
    · rw [ih hmem, step_memory_size]

/-- **A run does not depend on what it has not consumed.**  Until it finds the in-tray empty, a run
is the same with more values behind the input, which stay behind what is left of it.  Until it
finds nothing expected, a run is the same with more values expected after the others, which stay
behind those still expected. -/
theorem trace_surplus_trays (program : Program) (size : Nat)
    (input moreInput expected moreExpected : List Value) (n : Nat) :
    ((∀ state ∈ trace program n (start (Session.start size input expected)),
        state.1 ≠ .ended (.halt .inputExhausted)) →
      trace program n (start (Session.start size (input ++ moreInput) expected)) =
        (trace program n (start (Session.start size input expected))).map
          fun (outcome, machine) => (outcome, machine.onSession fun session =>
            { session with pending := session.pending ++ moreInput })) ∧
    ((∀ state ∈ trace program n (start (Session.start size input expected)),
        state.1 ≠ .ended (.fault .nothingExpected)) →
      trace program n (start (Session.start size input (expected ++ moreExpected))) =
        (trace program n (start (Session.start size input expected))).map
          fun (outcome, machine) => (outcome, machine.onSession fun session =>
            { session with expected := session.expected ++ moreExpected })) := by
  refine ⟨fun hquiet => ?_, fun hquiet => ?_⟩
  · have htrace := trace_extend { input := moreInput } fun state hmem htells => by
      simp only [Surplus.Tells, ne_eq, not_true, and_false, or_false] at htells
      exact hquiet state hmem htells.1
    simpa [Session.extend_input] using htrace
  · have htrace := trace_extend { expected := moreExpected } fun state hmem htells => by
      simp only [Surplus.Tells, ne_eq, not_true, and_false, or_false, false_or] at htells
      exact hquiet state hmem htells.1
    simpa [Session.extend_expected] using htrace

/-- Takes a value, raises it in the first cell and leaves it in the cell that this one then
points to. -/
def pointing : Program :=
  ⟨#[⟨.inbox, some "a", none⟩, ⟨.cell .copyTo (.direct Number.zero), none, none⟩,
    ⟨.cell .bumpUp (.direct Number.zero), none, none⟩,
    ⟨.cell .copyTo (.indirect Number.zero), none, none⟩, ⟨.outbox, none, none⟩,
    ⟨.jump none "a", none, none⟩], [("a", 0)]⟩

theorem trace_surplus_trays_pointing :
    trace pointing 6 (start (Session.start 2 ([.number Number.zero] ++ [.character 'x'])
        [.number Number.one])) =
      (trace pointing 6 (start (Session.start 2 [.number Number.zero] [.number Number.one]))).map
        (fun (outcome, machine) => (outcome, machine.onSession fun session =>
          { session with pending := session.pending ++ [.character 'x'] })) ∧
    trace pointing 6 (start (Session.start 2 [.number Number.zero]
        ([.number Number.one] ++ [.empty]))) =
      (trace pointing 6 (start (Session.start 2 [.number Number.zero] [.number Number.one]))).map
        (fun (outcome, machine) => (outcome, machine.onSession fun session =>
          { session with expected := session.expected ++ [.empty] })) :=
  ⟨(trace_surplus_trays pointing 2 [.number Number.zero] [.character 'x'] [.number Number.one] []
      6).1 (by decide),
    (trace_surplus_trays pointing 2 [.number Number.zero] [] [.number Number.one] [.empty]
      6).2 (by decide)⟩

/-- **More memory never changes a run that stayed in bounds.**  A run with `size` cells of which no
step ends out of bounds is the same with more cells: after every step these are empty and stand
behind the first `size` cells, and everything else is equal. -/
theorem trace_surplus_cells {program : Program} {input expected : List Value}
    {size size' n : Nat} (hsize : size ≤ size')
    (hquiet : ∀ state ∈ trace program n (start (Session.start size input expected)),
      state.1.outOfBounds = false) :
    trace program n (start (Session.start size' input expected)) =
        (trace program n (start (Session.start size input expected))).map
          (fun (outcome, machine) => (outcome, machine.onSession fun session =>
            { session with memory := session.memory.grown (size' - size) })) ∧
      ∀ state ∈ trace program n (start (Session.start size input expected)),
        state.2.session.memory.size = size := by
  refine ⟨?_, fun state hmem => ?_⟩
  · have htrace := trace_extend { cells := size' - size } fun state hmem htells => by
      simp only [Surplus.Tells, ne_eq, not_true, and_false, false_or] at htells
      exact Bool.false_ne_true ((hquiet state hmem).symm.trans htells.1)
    simpa [Session.extend_cells, Nat.add_sub_cancel' hsize] using htrace
  · rw [trace_memory_size hmem]
    simp [start, Session.start, Memory.ofSize, Memory.size]

theorem trace_surplus_cells_pointing :
    (∀ state ∈ trace pointing 7 (start (Session.start 2 [.number Number.zero]
        [.number Number.one])), state.1.outOfBounds = false) ∧
    trace pointing 7 (start (Session.start 5 [.number Number.zero] [.number Number.one])) =
      (trace pointing 7 (start (Session.start 2 [.number Number.zero] [.number Number.one]))).map
        (fun (outcome, machine) => (outcome, machine.onSession fun session =>
          { session with memory := session.memory.grown 3 })) ∧
    ∀ state ∈ trace pointing 7 (start (Session.start 2 [.number Number.zero]
        [.number Number.one])), state.2.session.memory.size = 2 :=
  ⟨by decide, trace_surplus_cells (by decide) (by decide)⟩

end Machine

end Clerk
