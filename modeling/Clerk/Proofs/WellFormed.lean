import Clerk.Proofs.FoldedForm

/-!
# Finished programs

What holds of every program that is made from entries, whatever marks, repeated labels and jumps
these have.  The table is made from the entries and the instructions by folding; the facts below
say that the two fit.

* `Program.resolve_eq_some_iff` — the table finds what the entries bind;
* `Program.label_of_resolve`, `Program.resolve_of_label` — table and labels of instructions;
* `Program.resolve_renamed`, `Program.renamed_of_unresolved` — renaming a jump does not change
  where it goes, and a jump that goes nowhere is left alone;
* `Program.wellFormed_ofEntries` — all of it together.
-/

set_option autoImplicit false

namespace Clerk

open Fold

/-- Entries with marks on top of each other, a label that comes back, labels of the end and a jump
to nowhere. -/
def Fold.stacked : List Entry :=
  [Entry.mark "a", Entry.mark "b", Entry.mark "a", Entry.ofOp (.jump none "d"),
    ⟨some .outbox, some "c", none⟩, Entry.mark "d", Entry.mark "e", Entry.ofOp (.jump none "y"),
    Entry.ofOp (.jump none "x"), Entry.ofOp (.jump none "b"), Entry.mark "y", Entry.mark "z"]

namespace Program

variable {entries : List Entry} {program : Program}

/-! ## Table and instructions -/

theorem ofEntries_ok (h : ofEntries entries = .ok program) :
    LabelTable.extend [] (bindings 0 entries) = .ok program.labels ∧
      program.instructions.toList = Fold.instructions entries := by
  unfold ofEntries at h
  cases htable : LabelTable.extend [] (bindings 0 entries) with
  | error cause =>
    rw [htable] at h
    cases h
  | ok labels =>
    rw [htable] at h
    cases h
    exact ⟨rfl, rfl⟩

theorem resolve_eq_some_iff (h : ofEntries entries = .ok program) {label : String} {place : Nat} :
    program.resolve label = some place ↔ (label, place) ∈ bindings 0 entries :=
  ⟨LabelTable.mem_of_lookup_extend (ofEntries_ok h).1,
    LabelTable.lookup_extend_of_mem (ofEntries_ok h).1⟩

theorem resolve_eq_some_iff_bound (h : ofEntries entries = .ok program) {label : String}
    {place : Nat} : program.resolve label = some place ↔ (label, place) ∈ bound none 0 entries :=
  resolve_eq_some_iff h

/-- A program is only made when no label is bound to two places. -/
theorem onePlace_of_ofEntries (h : ofEntries entries = .ok program) :
    OnePlace (bound none 0 entries) := by
  intro label place place' hplace hplace'
  rw [← resolve_eq_some_iff_bound h] at hplace hplace'
  exact Option.some.inj (hplace.symm.trans hplace')

theorem size_ofEntries (h : ofEntries entries = .ok program) :
    program.size = opCount entries := by
  rw [size, ← Array.length_toList, (ofEntries_ok h).2, Fold.instructions, List.length_map,
    length_settle]

theorem resolve_le_size (h : ofEntries entries = .ok program) {label : String} {place : Nat}
    (hresolve : program.resolve label = some place) : place ≤ program.size := by
  have := place_le_of_mem_bindings ((resolve_eq_some_iff h).1 hresolve)
  rw [size_ofEntries h]
  omega

theorem getElem?_ofEntries (h : ofEntries entries = .ok program) (index : Nat) :
    program.instructions[index]? =
      (settle none entries)[index]?.map (Instruction.retarget (renamed (aliases none entries))) := by
  rw [← Array.getElem?_toList, (ofEntries_ok h).2, Fold.instructions, List.getElem?_map]

/-- The labels of the instructions are those of all places but the last. -/
theorem label_eq_places (h : ofEntries entries = .ok program) {index : Nat}
    (hindex : index < program.size) :
    program.instructions[index]?.map Instruction.label = (places none entries)[index]? := by
  rw [size_ofEntries h, ← length_settle none] at hindex
  rw [getElem?_ofEntries h, places, List.getElem?_append_left (by simpa using hindex),
    List.getElem?_map, Option.map_map]
  rfl

/-! ## Labels and jumps -/

/-- **Renaming does not change where a label is bound.** -/
theorem resolve_renamed (h : ofEntries entries = .ok program) (target : String) :
    program.resolve (renamed (aliases none entries) target) = program.resolve target := by
  cases hresolve : program.resolve target with
  | none =>
    rw [renamed_of_not_bound none 0 entries target, hresolve]
    intro place hbound
    rw [(resolve_eq_some_iff_bound h).2 hbound] at hresolve
    cases hresolve
  | some place =>
    have hbound := (resolve_eq_some_iff_bound h).1 hresolve
    rw [← Nat.zero_add place] at hbound
    have hplace := place_of_bound none 0 entries (onePlace_of_ofEntries h) hbound
    rw [resolve_eq_some_iff_bound h, ← Nat.zero_add place]
    exact bound_of_place none 0 entries hplace

theorem renamed_of_unresolved (h : ofEntries entries = .ok program) {target : String}
    (hresolve : program.resolve target = none) :
    renamed (aliases none entries) target = target := by
  refine renamed_of_not_bound none 0 entries target fun place hbound => ?_
  rw [(resolve_eq_some_iff_bound h).2 hbound] at hresolve
  cases hresolve

/-- The instruction at the place of a label has the label that this one was renamed to. -/
theorem label_of_resolve (h : ofEntries entries = .ok program) {target : String} {place : Nat}
    (hresolve : program.resolve target = some place) (hplace : place < program.size) :
    ∃ instruction, program.instructions[place]? = some instruction ∧
      instruction.label = some (renamed (aliases none entries) target) := by
  have hbound := (resolve_eq_some_iff_bound h).1 hresolve
  rw [← Nat.zero_add place] at hbound
  have hlabel := place_of_bound none 0 entries (onePlace_of_ofEntries h) hbound
  rw [← label_eq_places h hplace, Option.map_eq_some_iff] at hlabel
  exact hlabel

/-- The label of an instruction resolves to it. -/
theorem resolve_of_label (h : ofEntries entries = .ok program) {place : Nat}
    {instruction : Instruction} {label : String}
    (hget : program.instructions[place]? = some instruction)
    (hlabel : instruction.label = some label) : program.resolve label = some place := by
  have hplace : place < program.size := (Array.getElem?_eq_some_iff.1 hget).1
  rw [resolve_eq_some_iff_bound h, ← Nat.zero_add place]
  refine bound_of_place none 0 entries ?_
  rw [← label_eq_places h hplace, hget, Option.map_some, hlabel]

/-- The operations of a program are those of its entries, with the jumps renamed. -/
theorem ops_ofEntries (h : ofEntries entries = .ok program) :
    program.instructions.toList.map Instruction.op =
      (entries.filterMap Entry.op).map (Op.retarget (renamed (aliases none entries))) := by
  rw [(ofEntries_ok h).2, Fold.instructions, ← ops_settle none, List.map_map, List.map_map]
  rfl

theorem op_of_entry {before after : List Entry} {entry : Entry} {op : Op}
    (h : ofEntries (before ++ entry :: after) = .ok program) (hop : entry.op = some op) :
    ∃ instruction, program.instructions[opCount before]? = some instruction ∧
      instruction.op = op.retarget (renamed (aliases none (before ++ entry :: after))) := by
  have hget := getElem?_ofEntries h (opCount before)
  rw [getElem?_settle before hop after] at hget
  exact ⟨_, hget, rfl⟩

/-- The target of a jump is one of the entries, renamed. -/
theorem target_of_mem (h : ofEntries entries = .ok program) {instruction : Instruction}
    (hmem : instruction ∈ program.instructions) {target : String}
    (htarget : instruction.op.target? = some target) :
    ∃ op ∈ entries.filterMap Entry.op, ∃ original, op.target? = some original ∧
      renamed (aliases none entries) original = target := by
  have hop : instruction.op ∈ program.instructions.toList.map Instruction.op :=
    List.mem_map_of_mem (Array.mem_def.1 hmem)
  rw [ops_ofEntries h] at hop
  obtain ⟨op, hop, heq⟩ := List.mem_map.1 hop
  rw [← heq, Op.target?_retarget, Option.map_eq_some_iff] at htarget
  exact ⟨op, hop, htarget⟩

/-- A jump that goes to an instruction names the label of that instruction. -/
theorem label_of_target (h : ofEntries entries = .ok program) {instruction : Instruction}
    (hmem : instruction ∈ program.instructions) {target : String} {place : Nat}
    (htarget : instruction.op.target? = some target)
    (hresolve : program.resolve target = some place) (hplace : place < program.size) :
    ∃ landing, program.instructions[place]? = some landing ∧ landing.label = some target := by
  obtain ⟨op, _, original, _, rfl⟩ := target_of_mem h hmem htarget
  rw [resolve_renamed h] at hresolve
  exact label_of_resolve h hresolve hplace

/-! ## Well-formed programs -/

/-- How a program fits the entries it is made from.  A label resolves to the number of operations
before any entry that has it, never beyond the end; what some label resolves to has a label, and a
jump there names it.  Every jump of the entries is there, and goes where it went. -/
structure WellFormed (entries : List Entry) (program : Program) : Prop where
  resolve_iff : ∀ label place, program.resolve label = some place ↔
    ∃ before entry after, entries = before ++ entry :: after ∧ entry.label = some label ∧
      place = opCount before
  resolve_le : ∀ label place, program.resolve label = some place → place ≤ program.size
  resolve_label : ∀ place instruction label, program.instructions[place]? = some instruction →
    instruction.label = some label → program.resolve label = some place
  labelled : ∀ label place, program.resolve label = some place → place < program.size →
    ∃ instruction name, program.instructions[place]? = some instruction ∧
      instruction.label = some name
  jump_names : ∀ instruction ∈ program.instructions, ∀ target place,
    instruction.op.target? = some target → program.resolve target = some place →
      place < program.size → ∃ landing, program.instructions[place]? = some landing ∧
        landing.label = some target
  jump_kept : ∀ before entry after test target, entries = before ++ entry :: after →
    entry.op = some (.jump test target) →
      ∃ instruction target', program.instructions[opCount before]? = some instruction ∧
        instruction.op = .jump test target' ∧ program.resolve target' = program.resolve target ∧
          (program.resolve target = none → target' = target)

/-- **Every program that is made from entries fits them.** -/
theorem wellFormed_ofEntries (h : ofEntries entries = .ok program) :
    WellFormed entries program where
  resolve_iff label place := by
    rw [resolve_eq_some_iff h, mem_bindings]
    simp only [Nat.zero_add]
  resolve_le _ _ := resolve_le_size h
  resolve_label _ _ _ := resolve_of_label h
  labelled label place hresolve hplace := by
    obtain ⟨instruction, hget, hlabel⟩ := label_of_resolve h hresolve hplace
    exact ⟨instruction, _, hget, hlabel⟩
  jump_names _ hmem _ _ := label_of_target h hmem
  jump_kept before entry after test target hsplit hop := by
    subst hsplit
    obtain ⟨instruction, hget, heq⟩ := op_of_entry h hop
    exact ⟨instruction, _, hget, heq, resolve_renamed h target, renamed_of_unresolved h⟩

theorem wellFormed_ofEntries_stacked :
    ∃ program, ofEntries stacked = .ok program ∧ WellFormed stacked program :=
  ⟨_, rfl, wellFormed_ofEntries rfl⟩

end Program

end Clerk
