import Clerk.Proofs.Relisting

/-!
# The program that comes back from a listing

A program that was read or built is written and read again.  What comes back is the same program
up to three things: its comments are gone, its jumps to the end all name one label, and its table
has lost the labels that no listing shows.

* `Program.endRenamed` — the label that a jump has once it comes back;
* `Program.Listed` — the labels that a listing shows;
* `Program.renamed_target_reread`, `Program.resolve_reread_iff` — targets and table of the program
  that comes back;
* `Program.exists_reread_exactly` — the whole of it.
-/

set_option autoImplicit false

namespace Clerk

open Fold Listing

theorem Op.retarget_congr {rename rename' : String → String} {op : Op}
    (h : ∀ target ∈ op.target?, rename target = rename' target) :
    op.retarget rename = op.retarget rename' := by
  cases op with
  | jump test target => exact congrArg (Op.jump test) (h target rfl)
  | inbox => rfl
  | outbox => rfl
  | cell kind address => rfl

namespace Program

variable {entries : List Entry} {p q : Program}

/-- The label that a jump to the given one has once it comes back: jumps to the end name the last
label that the table has there. -/
def endRenamed (p : Program) (target : String) : String :=
  if p.resolve target = some p.size then p.endLabels.getLastD target else target

/-- A listing shows the label: an instruction has it or it is bound to the end. -/
def Listed (p : Program) (label : String) : Prop :=
  (∃ instruction ∈ p.instructions, instruction.label = some label) ∨
    p.resolve label = some p.size

instance (p : Program) (label : String) : Decidable (p.Listed label) :=
  inferInstanceAs (Decidable ((∃ instruction ∈ p.instructions, instruction.label = some label) ∨
    p.resolve label = some p.size))

/-! ## Instructions -/

theorem renamed_target_reread (h : ofEntries entries = .ok p) (hq : ofEntries p.relisted = .ok q)
    {instruction : Instruction} (hmem : instruction ∈ p.instructions) {target : String}
    (htarget : instruction.op.target? = some target) :
    renamed (aliases none p.relisted) target = p.endRenamed target := by
  unfold endRenamed
  split
  · rename_i hend
    have hsame := resolve_target_reread h hq hmem htarget
    have hlast := getLast_endLabels hq (hsame.trans hend)
    rw [List.getLastD_eq_getLast?, hlast]
    rfl
  · rename_i hend
    exact (renamed_target_eq_iff h hq hmem htarget).2 fun heq => absurd heq hend

/-- **The instructions come back without comments and with the jumps to the end renamed.** -/
theorem instructions_reread_eq (h : ofEntries entries = .ok p)
    (hq : ofEntries p.relisted = .ok q) :
    q.instructions =
      p.instructions.map fun instruction => (instruction.retarget p.endRenamed).bare := by
  apply Array.toList_inj.1
  rw [instructions_relisted hq, Array.toList_map]
  apply List.map_congr_left
  intro instruction hmem
  have hop : instruction.op.retarget (renamed (aliases none p.relisted)) =
      instruction.op.retarget p.endRenamed :=
    Op.retarget_congr fun target htarget =>
      renamed_target_reread h hq (Array.mem_def.2 hmem) htarget
  simp only [Instruction.bare, Instruction.retarget, hop]

/-! ## The table -/

theorem mem_bindings_relisted_iff (h : ofEntries entries = .ok p) {label : String} {place : Nat} :
    (label, place) ∈ bindings 0 p.relisted ↔
      p.resolve label = some place ∧ p.Listed label := by
  constructor
  · intro hmem
    refine ⟨resolve_of_mem_relisted h hmem, ?_⟩
    rcases mem_bindings_relisted.1 hmem with ⟨instruction, hget, hlabel⟩ | ⟨hname, -⟩
    · exact Or.inl ⟨instruction, Array.mem_of_getElem? hget, hlabel⟩
    · exact Or.inr ((mem_endLabels h).1 hname)
  · rintro ⟨hresolve, ⟨instruction, hmem, hlabel⟩ | hend⟩
    · obtain ⟨index, hget⟩ := Array.mem_iff_getElem?.1 hmem
      -- the label of an instruction resolves to it and to nothing else
      rw [resolve_of_label h hget hlabel] at hresolve
      cases hresolve
      exact mem_bindings_relisted.2 (Or.inl ⟨instruction, hget, hlabel⟩)
    · rw [hend] at hresolve
      cases hresolve
      exact mem_bindings_relisted.2 (Or.inr ⟨(mem_endLabels h).2 hend, rfl⟩)

theorem resolve_reread_iff (h : ofEntries entries = .ok p) (hq : ofEntries p.relisted = .ok q)
    (label : String) (place : Nat) :
    q.resolve label = some place ↔ p.resolve label = some place ∧ p.Listed label := by
  rw [resolve_eq_some_iff hq, mem_bindings_relisted_iff h]

/-- **The table comes back without the labels that no listing shows.** -/
theorem labels_reread_perm (h : ofEntries entries = .ok p) (hq : ofEntries p.relisted = .ok q) :
    q.labels.Perm (p.labels.filter fun binding => p.Listed binding.1) := by
  have hnodup := nodup_labels h
  have hnodup' := nodup_labels hq
  apply (List.perm_ext_iff_of_nodup hnodup'.of_map (hnodup.of_map.filter _)).2
  rintro ⟨label, place⟩
  rw [LabelTable.mem_iff_lookup hnodup', List.mem_filter, LabelTable.mem_iff_lookup hnodup,
    decide_eq_true_iff]
  exact resolve_reread_iff h hq label place

/-! ## Both -/

/-- **Exactly what comes back.**  A program from a listing or from a builder is read back from its
listing with the same instructions, but without comments and with every jump to the end naming the
last label there; and with the same table, but only for labels that an instruction has or that are
bound to the end. -/
theorem exists_reread_exactly (h : Made p) :
    ∃ q, ofListing p.listing = .ok q ∧
      q.instructions =
        p.instructions.map (fun instruction => (instruction.retarget p.endRenamed).bare) ∧
      (∀ label place,
        q.resolve label = some place ↔ p.resolve label = some place ∧ p.Listed label) ∧
      q.labels.Perm (p.labels.filter fun binding => p.Listed binding.1) := by
  obtain ⟨entries, hp, hnamed⟩ := h.named
  obtain ⟨q, hq, -⟩ := ofEntries_relisted hp
  refine ⟨q, ?_, instructions_reread_eq hp hq, resolve_reread_iff hp hq, labels_reread_perm hp hq⟩
  rw [ofListing_listing (writable_of_named hp hnamed), hq]

/-- A listing with a label that gives way, one that begins almost like a metadata block, hyphens and
a label of the end that comes back. -/
def winding : String :=
  "a: DEFIN-E:\n  jumpn é;\nb:\n\tCOPYTO [-9223372036854775808] -- a:\nJUMP a\né;:\nz:\né;:"

theorem exists_reread_exactly_winding :
    ∃ p q, ofListing winding = .ok p ∧ ofListing p.listing = .ok q ∧
      q.instructions =
        p.instructions.map (fun instruction => (instruction.retarget p.endRenamed).bare) ∧
      (∀ label place,
        q.resolve label = some place ↔ p.resolve label = some place ∧ p.Listed label) ∧
      q.labels.Perm (p.labels.filter fun binding => p.Listed binding.1) := by
  have hread : ofListing winding = .ok
      ⟨#[⟨.jump (some .negative) "é;", some "DEFIN-E", none⟩,
        ⟨.cell .copyTo (.indirect ⟨-9223372036854775808, by decide, by decide⟩), some "b", none⟩,
        ⟨.jump none "DEFIN-E", none, none⟩],
        [("a", 0), ("DEFIN-E", 0), ("b", 1), ("é;", 3), ("z", 3)]⟩ := by
    decide +kernel
  obtain ⟨q, hq⟩ := exists_reread_exactly (.read winding hread)
  exact ⟨_, q, hread, hq⟩

end Program

end Clerk
