import Clerk.Proofs.Jumps
import Clerk.Proofs.WellFormed

/-!
# Running entries as they stand

Entries can be run without folding them: marks are passed over at no cost and a jump goes to the
first entry that has its label.  The machine on the folded program does the same, step by step.

* `Direct.step`, `Direct.trace` — the direct run;
* `Direct.step_folded` — one step of it is one step of the machine;
* `Direct.trace_folded` — and so are all steps.
-/

set_option autoImplicit false

namespace Clerk

open Fold

namespace Direct

/-- The first position, from the given one on, that holds no mark. -/
def skipMarks (entries : List Entry) (position : Nat) : Nat :=
  position + ((entries.drop position).takeWhile Entry.isMark).length

/-- A direct run at its start.  The position is an index into the entries. -/
def start (entries : List Entry) (session : Session) : Machine :=
  ⟨session, skipMarks entries 0, 0⟩

/-- One step of a direct run.  A run does not rest on a mark, so where there is no operation the
entries have ended. -/
def step (entries : List Entry) : Machine → Outcome × Machine
  | ⟨session, position, steps⟩ =>
    match entries[position]?.bind Entry.op with
    | none => (.ended (.halt .endOfProgram), ⟨session, position, steps⟩)
    | some op =>
      match session.effect op with
      | (.next, session) => (.running, ⟨session, skipMarks entries (position + 1), steps + 1⟩)
      | (.pass, session) => (.running, ⟨session, skipMarks entries (position + 1), steps⟩)
      | (.goto target, session) =>
        match findLabel entries target with
        | some place => (.running, ⟨session, skipMarks entries place, steps + 1⟩)
        | none => (.ended (.fault (.noSuchLabel target)), ⟨session, position, steps + 1⟩)
      | (.exhausted, session) => (.ended (.halt .inputExhausted), ⟨session, position, steps⟩)
      | (.fault cause, session) => (.ended (.fault cause), ⟨session, position, steps⟩)

/-- What the first `n` steps of a direct run say and its state after each of them. -/
def trace (entries : List Entry) : Nat → Machine → List (Outcome × Machine)
  | 0, _ => []
  | n + 1, machine =>
    let next := step entries machine
    next :: trace entries n next.2

/-- The state of the machine that a state of a direct run stands for: its position is the number
of operations before the position in the entries. -/
def folded (entries : List Entry) (machine : Machine) : Machine :=
  { machine with position := opCount (entries.take machine.position) }

/-! ## Positions -/

/-- There is no mark at the position. -/
def AtRest (entries : List Entry) (position : Nat) : Prop :=
  ∀ entry, entries[position]? = some entry → entry.isMark = false

theorem atRest_skipMarks (entries : List Entry) (position : Nat) :
    AtRest entries (skipMarks entries position) := by
  intro entry hget
  have hdrop : (entries.drop position)[((entries.drop position).takeWhile Entry.isMark).length]? =
      some entry := by
    rw [List.getElem?_drop]
    exact hget
  generalize entries.drop position = rest at hdrop
  induction rest with
  | nil => cases hdrop
  | cons first rest ih =>
    cases hmark : first.isMark with
    | false =>
      simp [hmark] at hdrop
      rw [← hdrop, hmark]
    | true =>
      simp [hmark] at hdrop
      exact ih hdrop

theorem opCount_takeWhile_isMark (entries : List Entry) :
    opCount (entries.takeWhile Entry.isMark) = 0 := by
  unfold opCount
  rw [List.countP_eq_zero]
  intro entry hmem
  have hmark := List.all_eq_true.1 List.all_takeWhile entry hmem
  simp [hmark]

/-- Passing over marks does not change the place in the folded program. -/
theorem opCount_take_skipMarks (entries : List Entry) (position : Nat) :
    opCount (entries.take (skipMarks entries position)) = opCount (entries.take position) := by
  have htake : (entries.drop position).take
      ((entries.drop position).takeWhile Entry.isMark).length =
        (entries.drop position).takeWhile Entry.isMark :=
    List.prefix_iff_eq_take.1 (List.takeWhile_prefix _) |>.symm
  rw [skipMarks, List.take_add, opCount_append, htake, opCount_takeWhile_isMark, Nat.add_zero]

theorem opCount_take_succ {entries : List Entry} {position : Nat} {entry : Entry} {op : Op}
    (hget : entries[position]? = some entry) (hop : entry.op = some op) :
    opCount (entries.take (position + 1)) = opCount (entries.take position) + 1 := by
  rw [List.take_add_one, hget, opCount_append]
  exact congrArg _ (opCount_op hop)

theorem resolve_eq_findLabel {entries : List Entry} {program : Program}
    (h : Program.ofEntries entries = .ok program) (label : String) :
    program.resolve label =
      (findLabel entries label).map fun index => opCount (entries.take index) := by
  rw [Program.resolve, LabelTable.lookup_extend (Program.ofEntries_ok h).1, List.nil_append,
    lookup_bindings]
  simp only [Nat.zero_add]

/-! ## Lockstep -/

theorem step_atRest {entries : List Entry} {machine : Machine}
    (hrest : AtRest entries machine.position) :
    AtRest entries (step entries machine).2.position := by
  obtain ⟨session, position, steps⟩ := machine
  rw [step]
  split
  · exact hrest
  · split
    · exact atRest_skipMarks entries _
    · exact atRest_skipMarks entries _
    · split
      · exact atRest_skipMarks entries _
      · exact hrest
    · exact hrest
    · exact hrest

/-- **One step of a direct run is one step of the machine.** -/
theorem step_folded {entries : List Entry} {program : Program}
    (h : Program.ofEntries entries = .ok program) {machine : Machine}
    (hrest : AtRest entries machine.position) :
    (folded entries machine).step program =
      ((step entries machine).1, folded entries (step entries machine).2) := by
  obtain ⟨session, position, steps⟩ := machine
  cases hget : entries[position]? with
  | none =>
    -- the entries have ended, and so have the instructions
    have hend : opCount (entries.take position) = program.size := by
      rw [List.take_of_length_le (List.getElem?_eq_none_iff.1 hget), Program.size_ofEntries h]
    have hnone : program.instructions[opCount (entries.take position)]? = none := by
      rw [hend]
      exact Array.getElem?_size
    rw [Machine.step_of_none hnone, step, hget]
    rfl
  | some entry =>
    obtain ⟨op, hop⟩ : ∃ op, entry.op = some op := by
      have hmark := hrest entry hget
      exact Option.isSome_iff_exists.1 (by simpa [Entry.isMark] using hmark)
    have hsplit : entries = entries.take position ++ entry :: entries.drop (position + 1) := by
      obtain ⟨hlt, rfl⟩ := List.getElem?_eq_some_iff.1 hget
      rw [List.getElem_cons_drop, List.take_append_drop]
    obtain ⟨instruction, hinstruction, heq⟩ := Program.op_of_entry (hsplit ▸ h) hop
    rw [← hsplit] at heq
    have hnext := opCount_take_succ hget hop
    rw [Machine.step_of_some hinstruction, heq, Session.effect_retarget, step, hget]
    simp only [Option.bind_some, hop, folded]
    rcases session.effect op with ⟨effect, after⟩
    cases effect with
    | next => simp [Machine.follow, Effect.retarget, opCount_take_skipMarks, hnext]
    | pass => simp [Machine.follow, Effect.retarget, opCount_take_skipMarks, hnext]
    | goto target =>
      -- the renamed label is bound where the label itself is
      have hresolve := Program.resolve_renamed h target
      rw [resolve_eq_findLabel h target] at hresolve
      simp only [Machine.follow, Effect.retarget, hresolve]
      cases hfind : findLabel entries target with
      | none =>
        have hnone : program.resolve target = none := by rw [resolve_eq_findLabel h, hfind]; rfl
        rw [Program.renamed_of_unresolved h hnone]
        rfl
      | some place => simp [opCount_take_skipMarks]
    | exhausted => rfl
    | fault cause => rfl

theorem trace_eq_map {entries : List Entry} {program : Program}
    (h : Program.ofEntries entries = .ok program) (n : Nat) {machine : Machine}
    (hrest : AtRest entries machine.position) :
    Machine.trace program n (folded entries machine) =
      (trace entries n machine).map fun state => (state.1, folded entries state.2) := by
  induction n generalizing machine with
  | zero => rfl
  | succ n ih =>
    rw [Machine.trace, trace, step_folded h hrest]
    exact congrArg _ (ih (step_atRest hrest))

theorem folded_start (entries : List Entry) (session : Session) :
    folded entries (start entries session) = Machine.start session := by
  simp [folded, start, Machine.start, opCount_take_skipMarks]

/-- **Folding keeps the meaning of a program.**  The machine on the program and the direct run of
its entries start in the same state and say the same at every step.  After each step the machine is
in the state that the direct run is in but for the position, which leaves out the marks. -/
theorem trace_folded {entries : List Entry} {program : Program}
    (h : Program.ofEntries entries = .ok program) (session : Session) (n : Nat) :
    Machine.start session = folded entries (start entries session) ∧
      Machine.trace program n (Machine.start session) =
        (trace entries n (start entries session)).map
          fun state => (state.1, folded entries state.2) := by
  refine ⟨(folded_start entries session).symm, ?_⟩
  rw [← folded_start entries session]
  exact trace_eq_map h n (atRest_skipMarks entries 0)

theorem trace_folded_stacked :
    ∃ program, Program.ofEntries stacked = .ok program ∧
      Machine.start (Session.start 1 [] []) =
        folded stacked (start stacked (Session.start 1 [] [])) ∧
      Machine.trace program 3 (Machine.start (Session.start 1 [] [])) =
        (trace stacked 3 (start stacked (Session.start 1 [] []))).map
          fun state => (state.1, folded stacked state.2) :=
  ⟨_, rfl, trace_folded rfl _ 3⟩

end Direct

end Clerk
