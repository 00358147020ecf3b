import Clerk.Listing.Writer
import Clerk.Proofs.Scoring
import Clerk.Proofs.Text
import Clerk.Proofs.Undoing
import Mathlib.Algebra.GroupWithZero.Nat
import Mathlib.Data.List.Basic
import Mathlib.Logic.Relation

/-!
# Counting to zero

A program that is right on every input: for each number in the in-tray it puts out the number and
all that follow it on the way to zero.  It keeps the number in the first cell, and one of two loops
brings it nearer to zero by one, down from above and up from below.

* `Machine.Reaches` — the run goes on from one machine to another;
* `Countdown.listing`, `Countdown.program` — the program, as it is written and as it is read;
* `Countdown.reaches_of_loop` — what a loop puts out, and its steps;
* `Countdown.reaches_of_number` — what is done for one number;
* `Countdown.reaches_of_numbers` — and for all of them;
* `Countdown.run?_counts` — the report on the run.
-/

set_option autoImplicit false

namespace Clerk

/-! ## Runs in parts -/

namespace Machine

/-- A number of steps that go on lead from one machine to another. -/
def Reaches (program : Program) : Machine → Machine → Prop :=
  Relation.ReflTransGen fun machine next => machine.step program = (.running, next)

variable {program : Program} {session next : Session} {machine last : Machine}
  {position : Nat}

theorem Reaches.exists_goesOn (h : Reaches program machine last) :
    ∃ n, GoesOn program n machine ∧ after program n machine = last := by
  induction h using Relation.ReflTransGen.head_induction_on with
  | refl =>
    refine ⟨0, ?_, rfl⟩
    intro state hmem
    cases hmem
  | head hstep _ ih =>
    obtain ⟨n, hgoes, hafter⟩ := ih
    refine ⟨n + 1, goesOn_cons hstep hgoes, ?_⟩
    rw [after, hstep, hafter]

/-- **A run that reaches a machine at which it ends is found** with every limit large enough. -/
theorem Reaches.run?_eq {ending : Ending} {left : Machine} (h : Reaches program machine last)
    (hends : last.step program = (.ended ending, left)) :
    ∃ enough, ∀ limit, enough ≤ limit → run? program limit machine = some (ending, left) := by
  obtain ⟨n, hgoes, rfl⟩ := h.exists_goesOn
  have hafter : EndsAfter program n machine ending left := ⟨hgoes, hends⟩
  refine ⟨n + 1, fun limit hlimit => ?_⟩
  rw [hafter.run?_eq, if_pos (Nat.lt_of_succ_le hlimit)]

theorem step_next {op : Op} (hop : program.opAt? position = some op)
    (heffect : session.effect op = (.next, next)) (steps : Nat) :
    step program ⟨session, position, steps⟩ = (.running, ⟨next, position + 1, steps + 1⟩) :=
  (Stepped.advance hop (Session.does_of_effect heffect)).step_eq

theorem step_pass {test : Option Test} {target : String}
    (hop : program.opAt? position = some (.jump test target))
    (htest : session.takesJump test = .ok false) (steps : Nat) :
    step program ⟨session, position, steps⟩ = (.running, ⟨session, position + 1, steps⟩) :=
  (Stepped.pass hop (.stay htest)).step_eq

theorem step_jump {test : Option Test} {target : String} {place : Nat}
    (hop : program.opAt? position = some (.jump test target))
    (htest : session.takesJump test = .ok true) (hresolve : program.resolve target = some place)
    (steps : Nat) :
    step program ⟨session, position, steps⟩ = (.running, ⟨session, place, steps + 1⟩) :=
  (Stepped.jump hop (.go htest) hresolve).step_eq

end Machine

namespace Number

/-- The number `k` places nearer to zero, or zero if it is not that far. -/
def nearer (n : Number) (k : Nat) : Number :=
  if 0 ≤ n.val then ⟨max 0 (n.val - k), by omega, by have := n.upper; omega⟩
  else ⟨min 0 (n.val + k), by have := n.lower; omega, by omega⟩

/-- The number and all that follow it on the way to zero, with zero as the last. -/
def toZero (n : Number) : List Value :=
  (List.range (n.val.natAbs + 1)).map fun k => .number (n.nearer k)

/-- A change by `delta` brings the number nearer to zero by one. -/
def Approaches (delta n : Number) : Prop :=
  delta.val = -1 ∧ 0 < n.val ∨ delta.val = 1 ∧ n.val < 0

variable {n delta : Number}

theorem nearer_zero (n : Number) : n.nearer 0 = n := by
  unfold nearer
  split <;> (ext; simp only; omega)

theorem Approaches.exists_next (h : delta.Approaches n) :
    ∃ next : Number, next.val = n.val + delta.val ∧ next.val.natAbs + 1 = n.val.natAbs ∧
      (next = zero ∨ delta.Approaches next) := by
  have hlower := n.lower
  have hupper := n.upper
  refine ⟨⟨n.val + delta.val, ?_, ?_⟩, rfl, ?_, ?_⟩
  · rcases h with h | h <;> omega
  · rcases h with h | h <;> omega
  · simp only
    rcases h with h | h <;> omega
  · by_cases hzero : n.val + delta.val = 0
    · exact Or.inl (Number.ext hzero)
    · refine Or.inr ?_
      simp only [Approaches]
      rcases h with h | h <;> omega

/-- **The way to zero starts with the number and goes on from the next one.** -/
theorem Approaches.toZero_eq {next : Number} (h : delta.Approaches n)
    (hnext : next.val = n.val + delta.val) : n.toZero = .number n :: next.toZero := by
  have hlength : n.val.natAbs = next.val.natAbs + 1 := by
    rcases h with h | h <;> omega
  have hrest : ∀ k, n.nearer (k + 1) = next.nearer k := by
    intro k
    ext
    unfold nearer
    rcases h with h | h
    · rw [if_pos (by omega), if_pos (by omega)]
      simp only
      omega
    · rw [if_neg (by omega)]
      split <;> (simp only; omega)
  rw [toZero, toZero, hlength, List.range_succ_eq_map, List.map_cons, List.map_map, nearer_zero]
  refine congrArg _ (List.map_congr_left fun k _ => ?_)
  rw [Function.comp_apply, hrest]

end Number

/-! ## What the operations of the program do -/

namespace Session

variable {session : Session} {n next delta : Number}

theorem resolve_first (h : 0 < session.memory.size) :
    session.resolve (.direct Number.zero) = .ok 0 := by
  have hindex : Number.zero.val = (0 : Nat) := rfl
  exact (Names.direct hindex (Memory.getElem?_of_lt h)).resolve_eq

theorem takesJump_zero (h : session.register = .number n) :
    session.takesJump (some .zero) = .ok (n.val == 0) := by
  rw [takesJump, h]
  rfl

theorem takesJump_negative (h : session.register = .number n) :
    session.takesJump (some .negative) = .ok (decide (n.val < 0)) := by
  rw [takesJump, h]
  rfl

/-- The session with a value taken into the register, and the values that wait after it. -/
def received (session : Session) (value : Value) (pending : List Value) : Session :=
  { session with taken := session.taken.push value, pending, register := value }

/-- The session with one more value put out, and the values expected after it. -/
def delivered (session : Session) (value : Value) (expected : List Value) : Session :=
  { session with output := session.output.push value, expected }

theorem effect_outbox_number {expected : List Value} (hregister : session.register = .number n)
    (hexpected : session.expected = .number n :: expected) :
    session.effect .outbox = (.next, session.delivered (.number n) expected) := by
  rw [← hregister] at hexpected ⊢
  exact (Does.deliver (by rw [hregister]; rintro ⟨⟩) hexpected).effect_eq

/-- The session with a number in the register and in the first cell. -/
def holding (session : Session) (n : Number) : Session :=
  session.store 0 (.number n) (.number n)

theorem effect_copyTo_first (h : 0 < session.memory.size)
    (hregister : session.register = .number n) :
    session.effect (.cell .copyTo (.direct Number.zero)) = (.next, session.holding n) := by
  refine effect_of_exchange (resolve_first h) ?_
  rw [hregister]
  rfl

theorem effect_bump_first {kind : CellOp} (hkind : kind.Bumps delta)
    (h : 0 < session.memory.size) (hnext : next.val = n.val + delta.val) :
    (session.holding n).effect (.cell kind (.direct Number.zero)) =
      (.next, session.holding next) := by
  have hsize : 0 < (session.holding n).memory.size := by simpa [holding, store] using h
  have hread : (session.holding n).memory.read 0 = .number n := Memory.read_write h _
  have hexchange : kind.exchange (session.holding n).register
      ((session.holding n).memory.read 0) 0 = .ok (.number next, .number next) := by
    rw [hkind, hread, Value.bump_eq hnext]
    rfl
  rw [effect_of_exchange (resolve_first hsize) hexchange]
  simp only [holding, store, Memory.write_write]

end Session

/-! ## The program -/

namespace Countdown

open Machine

/-- The lines of the program. -/
def listingLines : List String :=
  ["-- MAILROOM PROGRAM --", "    JUMP     d", "a:", "    OUTBOX", "d:", "    INBOX",
   "    JUMPZ    a", "    COPYTO   0", "    JUMPN    f", "e:", "    OUTBOX", "    BUMPDN   0",
   "    JUMPZ    a", "    JUMP     e", "f:", "    OUTBOX", "    BUMPUP   0", "    JUMPZ    a",
   "    JUMP     f"]

/-- The program as it is written. -/
def listing : String :=
  String.join (listingLines.map (· ++ "\n"))

/-- The program as it is read. -/
def program : Program where
  instructions :=
    #[⟨.jump none "d", none, none⟩,
      ⟨.outbox, some "a", none⟩,
      ⟨.inbox, some "d", none⟩,
      ⟨.jump (some .zero) "a", none, none⟩,
      ⟨.cell .copyTo (.direct Number.zero), none, none⟩,
      ⟨.jump (some .negative) "f", none, none⟩,
      ⟨.outbox, some "e", none⟩,
      ⟨.cell .bumpDown (.direct Number.zero), none, none⟩,
      ⟨.jump (some .zero) "a", none, none⟩,
      ⟨.jump none "e", none, none⟩,
      ⟨.outbox, some "f", none⟩,
      ⟨.cell .bumpUp (.direct Number.zero), none, none⟩,
      ⟨.jump (some .zero) "a", none, none⟩,
      ⟨.jump none "f", none, none⟩]
  labels := [("a", 1), ("d", 2), ("e", 6), ("f", 10)]

theorem ofListing_listing_eq : Program.ofListing listing = .ok program := by
  have hnewline : ∀ line ∈ listingLines, '\n' ∉ line.toList := by decide +kernel
  have hread : Listing.entries listing =
      Listing.readLines none (listingLines.map String.toList) :=
    congrArg (Listing.readLines none) (Text.lines_join hnewline)
  rw [Program.ofListing, hread]
  decide +kernel

/-- The task: for each number the way from it to zero. -/
def puzzle (memorySize : Nat) : Puzzle :=
  ⟨memorySize, fun input => (input.filterMap Value.number?).flatMap Number.toZero⟩

/-- The steps that the program takes for a number. -/
def stepsFor (n : Number) : Nat :=
  if n.val = 0 then 3
  else if 0 < n.val then 3 * n.val.natAbs + 3
  else 3 * n.val.natAbs + 4

/-- The values that a session still has to take and to put out, with a first cell to work in. -/
structure Due (pending expected : List Value) (session : Session) : Prop where
  pending : session.pending = pending
  expected : session.expected = expected
  size : 0 < session.memory.size

variable {pending expected : List Value} {session : Session} {n : Number}

theorem Due.delivered {value : Value} (h : Due pending (value :: expected) session) :
    Due pending expected (session.delivered value expected) :=
  ⟨h.pending, rfl, h.size⟩

theorem Due.holding (h : Due pending expected session) (n : Number) :
    Due pending expected (session.holding n) :=
  ⟨h.pending, h.expected, by simpa [Session.holding, Session.store] using h.size⟩

/-! ## One number -/

/-- Puts out the register, changes the first cell by `delta` and starts again, until there is zero
to be put out. -/
structure Loop (head : Nat) (kind : CellOp) (delta : Number) : Prop where
  outbox : program.opAt? head = some .outbox
  bump : program.opAt? (head + 1) = some (.cell kind (.direct Number.zero))
  leave : program.opAt? (head + 2) = some (.jump (some .zero) "a")
  again : ∃ label, program.opAt? (head + 3) = some (.jump none label) ∧
    program.resolve label = some head
  bumps : kind.Bumps delta

theorem loop_down : Loop 6 .bumpDown Number.minusOne :=
  ⟨rfl, rfl, rfl, ⟨"e", rfl, rfl⟩, CellOp.bumps_bumpDown⟩

theorem loop_up : Loop 10 .bumpUp Number.one :=
  ⟨rfl, rfl, rfl, ⟨"f", rfl, rfl⟩, CellOp.bumps_bumpUp⟩

/-- The last output of a number. -/
theorem reaches_of_zero (h : Due pending (.number Number.zero :: expected) session)
    (hregister : session.register = .number Number.zero) (steps : Nat) :
    Reaches program ⟨session, 1, steps⟩
      ⟨session.delivered (.number Number.zero) expected, 2, steps + 1⟩ := by
  have hop : program.opAt? 1 = some .outbox := rfl
  exact .single (step_next hop (Session.effect_outbox_number hregister h.expected) steps)

/-- **A loop puts out all numbers on the way to zero.**  It makes three steps for each number, the
last output apart. -/
theorem reaches_of_loop {head : Nat} {kind : CellOp} {delta : Number}
    (hloop : Loop head kind delta) (hn : delta.Approaches n)
    (h : Due pending (n.toZero ++ expected) session) (steps : Nat) :
    ∃ last, Due pending expected last ∧ Reaches program ⟨session.holding n, head, steps⟩
      ⟨last, 2, steps + 3 * n.val.natAbs + 1⟩ := by
  induction hdistance : n.val.natAbs generalizing n session steps with
  | zero =>
    exfalso
    rcases hn with hn | hn <;> omega
  | succ distance ih =>
    obtain ⟨next, hnext, hnearer, hcase⟩ := hn.exists_next
    rw [hn.toZero_eq hnext, List.cons_append] at h
    have hdue := h.delivered
    -- the register is put out, and the next number is in its place
    have hstart : Reaches program ⟨session.holding n, head, steps⟩
        ⟨(session.delivered (.number n) (next.toZero ++ expected)).holding next, head + 2,
          steps + 1 + 1⟩ := by
      have hout : (session.holding n).effect .outbox =
          (.next, (session.delivered (.number n) (next.toZero ++ expected)).holding n) :=
        Session.effect_outbox_number rfl h.expected
      have hbump := Session.effect_bump_first hloop.bumps hdue.size hnext
      exact .head (step_next hloop.outbox hout _) (.single (step_next hloop.bump hbump _))
    have htest : ((session.delivered (.number n) (next.toZero ++ expected)).holding next).takesJump
        (some .zero) = .ok (next.val == 0) := Session.takesJump_zero rfl
    rcases hcase with rfl | hcase
    · have hlast : Due pending (.number Number.zero :: expected)
          ((session.delivered (.number n) (Number.zero.toZero ++ expected)).holding Number.zero) :=
        hdue.holding Number.zero
      obtain rfl : distance = 0 := by
        have hzero : Number.zero.val.natAbs = 0 := rfl
        omega
      have hleave := step_jump hloop.leave htest rfl (steps + 1 + 1)
      exact ⟨_, hlast.delivered, hstart.trans (.head hleave (reaches_of_zero hlast rfl _))⟩
    · have hne : (next.val == 0) = false := by
        rw [beq_eq_false_iff_ne]
        rcases hcase with hcase | hcase <;> omega
      rw [hne] at htest
      obtain ⟨label, hagain, hresolve⟩ := hloop.again
      have hpass := step_pass hloop.leave htest (steps + 1 + 1)
      obtain ⟨last, hlast, hrest⟩ := ih hcase hdue (steps + 1 + 1 + 1) (by omega)
      have hsteps : steps + 1 + 1 + 1 + 3 * distance + 1 = steps + 3 * (distance + 1) + 1 := by
        omega
      rw [hsteps] at hrest
      refine ⟨last, hlast, hstart.trans (.head hpass ?_)⟩
      exact .head (step_jump hagain rfl hresolve _) hrest

/-- **For each number the way to zero is put out**, and the program waits for the next one. -/
theorem reaches_of_number (h : Due (.number n :: pending) (n.toZero ++ expected) session)
    (steps : Nat) :
    ∃ last, Due pending expected last ∧ Reaches program ⟨session, 2, steps⟩
      ⟨last, 2, steps + stepsFor n⟩ := by
  have hdue : Due pending (n.toZero ++ expected) (session.received (.number n) pending) :=
    ⟨rfl, h.expected, h.size⟩
  have hinbox : program.opAt? 2 = some .inbox := rfl
  have hjumpz : program.opAt? 3 = some (.jump (some .zero) "a") := rfl
  have hcopy : program.opAt? 4 = some (.cell .copyTo (.direct Number.zero)) := rfl
  have hjumpn : program.opAt? 5 = some (.jump (some .negative) "f") := rfl
  have htake : Reaches program ⟨session, 2, steps⟩
      ⟨session.received (.number n) pending, 3, steps + 1⟩ :=
    .single (step_next hinbox (Session.Does.take h.pending).effect_eq steps)
  have hzero : (session.received (.number n) pending).takesJump (some .zero) =
      .ok (n.val == 0) := Session.takesJump_zero rfl
  by_cases hn : n.val = 0
  · obtain rfl : n = Number.zero := Number.ext hn
    have hgo := step_jump hjumpz hzero rfl (steps + 1)
    exact ⟨_, Due.delivered hdue, htake.trans (.head hgo (reaches_of_zero hdue rfl _))⟩
  · have hne : (n.val == 0) = false := beq_eq_false_iff_ne.2 hn
    rw [hne] at hzero
    have hkeep : Reaches program ⟨session, 2, steps⟩
        ⟨(session.received (.number n) pending).holding n, 5, steps + 1 + 1⟩ := by
      have hcopied := Session.effect_copyTo_first hdue.size rfl
      exact htake.trans (.head (step_pass hjumpz hzero _) (.single (step_next hcopy hcopied _)))
    have hsign : ((session.received (.number n) pending).holding n).takesJump (some .negative) =
        .ok (decide (n.val < 0)) := Session.takesJump_negative rfl
    by_cases hnegative : n.val < 0
    · rw [decide_eq_true hnegative] at hsign
      have hup : Number.one.Approaches n := Or.inr ⟨rfl, hnegative⟩
      have hgo := step_jump hjumpn hsign rfl (steps + 1 + 1)
      obtain ⟨last, hlast, hloop⟩ := reaches_of_loop loop_up hup hdue (steps + 1 + 1 + 1)
      have hsteps : steps + 1 + 1 + 1 + 3 * n.val.natAbs + 1 = steps + stepsFor n := by
        rw [stepsFor, if_neg hn, if_neg (by omega)]
        omega
      rw [hsteps] at hloop
      exact ⟨last, hlast, hkeep.trans (.head hgo hloop)⟩
    · rw [decide_eq_false hnegative] at hsign
      have hdown : Number.minusOne.Approaches n := Or.inl ⟨rfl, by omega⟩
      have hstay := step_pass hjumpn hsign (steps + 1 + 1)
      obtain ⟨last, hlast, hloop⟩ := reaches_of_loop loop_down hdown hdue (steps + 1 + 1)
      have hsteps : steps + 1 + 1 + 3 * n.val.natAbs + 1 = steps + stepsFor n := by
        rw [stepsFor, if_neg hn, if_pos (by omega)]
        omega
      rw [hsteps] at hloop
      exact ⟨last, hlast, hkeep.trans (.head hstay hloop)⟩

/-! ## All numbers -/

theorem reaches_of_numbers {numbers : List Number}
    (h : Due (numbers.map .number) (numbers.flatMap Number.toZero) session) (steps : Nat) :
    ∃ last, Due [] [] last ∧ Reaches program ⟨session, 2, steps⟩
      ⟨last, 2, steps + (numbers.map stepsFor).sum⟩ := by
  induction numbers generalizing session steps with
  | nil => exact ⟨session, h, .refl⟩
  | cons n numbers ih =>
    rw [List.map_cons, List.flatMap_cons] at h
    obtain ⟨next, hnext, hfirst⟩ := reaches_of_number h steps
    obtain ⟨last, hlast, hrest⟩ := ih hnext (steps + stepsFor n)
    rw [Nat.add_assoc, ← List.sum_cons, ← List.map_cons] at hrest
    exact ⟨last, hlast, hfirst.trans hrest⟩

/-- **The program counts to zero from every number.**  With a cell to work in it ends on every list
of numbers, and the report on the run is a success: the output is the way to zero from each number
in turn, and the steps are one for the first jump and for each number those that it takes. -/
theorem run?_counts {memorySize : Nat} (h : 1 ≤ memorySize) (numbers : List Number) :
    Program.ofListing listing = .ok program ∧
    ∃ enough, ∀ limit, enough ≤ limit →
      (puzzle memorySize).run? program (numbers.map .number) limit = some
        { status := .success, message := none, instructionCount := 14
          stepCount := 1 + (numbers.map stepsFor).sum
          input := numbers.map .number, output := numbers.flatMap Number.toZero } := by
  refine ⟨ofListing_listing_eq, ?_⟩
  have hexpected : (puzzle memorySize).expected (numbers.map .number) =
      numbers.flatMap Number.toZero := by
    simp [puzzle, List.filterMap_map, Function.comp_def, Value.number?]
  have hdue : Due (numbers.map .number) (numbers.flatMap Number.toZero)
      ((puzzle memorySize).session (numbers.map .number)) := by
    have hsize : (Memory.ofSize memorySize).size = memorySize := Array.size_replicate
    exact ⟨rfl, hexpected, Nat.lt_of_lt_of_eq h hsize.symm⟩
  have hjump : program.opAt? 0 = some (.jump none "d") := rfl
  obtain ⟨last, hlast, hreaches⟩ := reaches_of_numbers hdue 1
  have hrun : Reaches program (start ((puzzle memorySize).session (numbers.map .number)))
      ⟨last, 2, 1 + (numbers.map stepsFor).sum⟩ :=
    .head (step_jump hjump rfl rfl 0) hreaches
  have hinbox : program.opAt? 2 = some .inbox := rfl
  have hends : step program ⟨last, 2, 1 + (numbers.map stepsFor).sum⟩ =
      (.ended (.halt .inputExhausted), ⟨last, 2, 1 + (numbers.map stepsFor).sum⟩) :=
    (Stepped.exhaust hinbox (.exhaust hlast.pending)).step_eq
  obtain ⟨enough, henough⟩ := hrun.run?_eq hends
  refine ⟨enough, fun limit hlimit => ?_⟩
  rw [Puzzle.run?_success (henough limit hlimit) hlast.expected, hexpected]
  rfl

theorem run?_counts_bothWays :
    1 ≤ 1 ∧ Program.ofListing listing = .ok program ∧
    ∃ enough, ∀ limit, enough ≤ limit →
      (puzzle 1).run? program
        [.number Number.minusOne, .number Number.zero, .number Number.one] limit = some
          { status := .success, message := none, instructionCount := 14, stepCount := 17
            input := [.number Number.minusOne, .number Number.zero, .number Number.one]
            output := [.number Number.minusOne, .number Number.zero, .number Number.zero,
              .number Number.one, .number Number.zero] } :=
  ⟨by decide, run?_counts (by decide) [Number.minusOne, Number.zero, Number.one]⟩

end Countdown

end Clerk
