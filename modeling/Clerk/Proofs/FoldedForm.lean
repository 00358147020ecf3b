import Clerk.Proofs.Folding

/-!
# What folding makes of its entries

Folding in closed form.  Nothing is asked of the entries: labels may be repeated and bound to
several places, marks may come without a label and operations with one.

* `Fold.pendingLabel` — the label that waits at the end of a list of entries;
* `Fold.getElem?_settle` — the instruction that an operation becomes;
* `Fold.renamed_of_no_mark` — no label is renamed but those of marks;
* `Fold.instructions_toEntry` — instructions are folded to themselves;
* `Fold.folded_instructions` — all of it together.
-/

set_option autoImplicit false

namespace Clerk

namespace Fold

/-! ## Labels that wait -/

/-- The label of the last labelled mark in the block of marks that the entries end in. -/
def pendingLabel (entries : List Entry) : Option String :=
  (entries.reverse.takeWhile Entry.isMark).findSome? Entry.label

theorem leftOver_eq_pendingLabel (entries : List Entry) :
    leftOver none entries = pendingLabel entries := by
  have hback : ∀ back : List Entry, back.foldr (fun entry carried => entry.handOn carried) none =
      (back.takeWhile Entry.isMark).findSome? Entry.label := by
    intro back
    induction back with
    | nil => rfl
    | cons entry rest ih =>
      rw [List.foldr_cons, ih]
      cases hop : entry.op with
      | none =>
        have hmark : entry.isMark = true := by rw [Entry.isMark, hop]; rfl
        rw [handOn_mark hop, List.takeWhile_cons_of_pos hmark, List.findSome?_cons]
        cases entry.label <;> rfl
      | some op =>
        have hmark : ¬ entry.isMark = true := by rw [Entry.isMark, hop]; exact Bool.false_ne_true
        rw [handOn_op hop, List.takeWhile_cons_of_neg hmark]
        rfl
  unfold leftOver pendingLabel
  rw [← hback, List.foldr_reverse]

/-! ## Operations in their places -/

theorem settle_append (carried : Option String) (before after : List Entry) :
    settle carried (before ++ after) =
      settle carried before ++ settle (leftOver carried before) after := by
  induction before generalizing carried with
  | nil => rfl
  | cons entry rest ih =>
    cases hop : entry.op with
    | none =>
      show settle carried (entry :: (rest ++ after)) = _
      rw [settle, settle, hop]
      exact ih (entry.handOn carried)
    | some op =>
      show settle carried (entry :: (rest ++ after)) = _
      have hstep : leftOver carried (entry :: rest) = leftOver none rest := by
        unfold leftOver
        rw [List.foldl_cons, handOn_op hop]
      rw [settle, settle, hop, hstep]
      show _ :: settle none (rest ++ after) = _
      rw [ih none]
      rfl

/-- An operation stands where as many operations are before it, with its own label or else the
one that waits there. -/
theorem getElem?_settle (before : List Entry) {entry : Entry} {op : Op} (hop : entry.op = some op)
    (after : List Entry) :
    (settle none (before ++ entry :: after))[opCount before]? =
      some ⟨op, entry.label.or (pendingLabel before), entry.comment⟩ := by
  rw [settle_append, ← length_settle none before, List.getElem?_append_right (Nat.le_refl _),
    Nat.sub_self, leftOver_eq_pendingLabel, settle, hop]
  rfl

/-! ## Renamings -/

/-- The labels that give way are those of marks, or the one that is handed to the first entry. -/
theorem mark_of_mem_aliases {carried : Option String} {entries : List Entry} {old new : String}
    (h : (old, new) ∈ aliases carried entries) :
    carried = some old ∨ ∃ entry ∈ entries, entry.isMark = true ∧ entry.label = some old := by
  induction entries generalizing carried with
  | nil => cases h
  | cons entry rest ih =>
    have hlater : (old, new) ∈ aliases (entry.handOn carried) rest →
        carried = some old ∨
          ∃ other ∈ entry :: rest, other.isMark = true ∧ other.label = some old := by
      intro hmem
      rcases ih hmem with hhanded | ⟨other, hother, hmark⟩
      · unfold Entry.handOn at hhanded
        split at hhanded
        · rename_i hop
          rcases carried_or_own hhanded with hcarried | hown
          · exact Or.inl hcarried
          · refine Or.inr ⟨entry, List.mem_cons_self, ?_, hown⟩
            rw [Entry.isMark, hop]
            rfl
        · cases hhanded
      · exact Or.inr ⟨other, List.mem_cons_of_mem _ hother, hmark⟩
    unfold aliases at h
    simp only at h
    split at h
    · split at h
      · exact hlater h
      · rcases List.mem_cons.1 h with heq | h
        · cases heq
          exact Or.inl rfl
        · exact hlater h
    · exact hlater h

theorem renamed_of_forall_ne {renamings : List (String × String)} {label : String}
    (h : ∀ pair ∈ renamings, pair.1 ≠ label) : renamed renamings label = label := by
  unfold renamed
  induction renamings with
  | nil => rfl
  | cons pair rest ih =>
    obtain ⟨hpair, hrest⟩ := List.forall_mem_cons.1 h
    rw [List.foldl_cons, if_neg (Ne.symm hpair)]
    exact ih hrest

/-- **No label is renamed but those of marks.** -/
theorem renamed_of_no_mark {entries : List Entry} {target : String}
    (h : ∀ entry ∈ entries, entry.isMark = true → entry.label ≠ some target) :
    renamed (aliases none entries) target = target := by
  apply renamed_of_forall_ne
  rintro ⟨old, new⟩ hmem rfl
  rcases mark_of_mem_aliases hmem with hnone | ⟨entry, hentry, hmark, hlabel⟩
  · cases hnone
  · exact h entry hentry hmark hlabel

/-! ## Folding what is folded -/

theorem settle_toEntry (result : List Instruction) :
    settle none (result.map Instruction.toEntry) = result := by
  induction result with
  | nil => rfl
  | cons instruction rest ih =>
    show ⟨instruction.op, instruction.label.or none, instruction.comment⟩ ::
      settle none (rest.map Instruction.toEntry) = _
    rw [ih, Option.or_none]

theorem aliases_toEntry (result : List Instruction) :
    aliases none (result.map Instruction.toEntry) = [] := by
  induction result with
  | nil => rfl
  | cons instruction rest ih => exact ih

/-- **Instructions are folded to themselves.** -/
theorem instructions_toEntry (result : List Instruction) :
    instructions (result.map Instruction.toEntry) = result := by
  unfold instructions
  rw [settle_toEntry, aliases_toEntry]
  refine (List.map_congr_left fun instruction _ => ?_).trans (List.map_id _)
  obtain ⟨op, label, comment⟩ := instruction
  cases op <;> rfl

/-! ## The closed form -/

/-- What folding makes of entries, when the labels that jumps name are renamed: no mark is left, and
there is one instruction for each operation.  It stands where as many operations are before it; it
has the comment of the operation, its own label or else the one that waits there, and is the same
but for the target of a jump.  A target that is the label of no mark stays, and folding once more
changes nothing. -/
structure Folded (rename : String → String) (entries : List Entry) (result : List Instruction) :
    Prop where
  no_mark : ∀ entry ∈ result.map Instruction.toEntry, entry.isMark = false
  length : result.length = opCount entries
  instruction : ∀ before entry after op, entries = before ++ entry :: after →
    entry.op = some op → result[opCount before]? =
      some ⟨op.retarget rename, entry.label.or (pendingLabel before), entry.comment⟩
  target : ∀ target, (∀ entry ∈ entries, entry.isMark = true → entry.label ≠ some target) →
    rename target = target
  again : instructions (result.map Instruction.toEntry) = result

/-- **Folding in closed form**, for every list of entries. -/
theorem folded_instructions (entries : List Entry) :
    Folded (renamed (aliases none entries)) entries (instructions entries) where
  no_mark entry hmem := by
    obtain ⟨instruction, -, rfl⟩ := List.mem_map.1 hmem
    rfl
  length := by
    unfold instructions
    rw [List.length_map, length_settle]
  instruction before entry after op hsplit hop := by
    subst hsplit
    unfold instructions
    rw [List.getElem?_map, getElem?_settle before hop after]
    rfl
  target _ h := renamed_of_no_mark h
  again := instructions_toEntry _

-- A label waits through a mark without one, and a label of its own comes before it.
example : instructions [Entry.mark "a", ⟨none, none, none⟩, Entry.ofOp (.jump none "b"),
      Entry.mark "b", ⟨some .outbox, some "c", some "last"⟩] =
    [⟨.jump none "c", some "a", none⟩, ⟨.outbox, some "c", some "last"⟩] := by decide

end Fold

end Clerk
