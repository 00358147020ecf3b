import Clerk.Proofs.Folding

/-!
# Folding in place

Folding can also be done on the list itself, with an index that goes through it.  An operation is
passed over.  A mark is taken out; if it has a label, the entry that has moved up to its place gets
the label, or keeps its own, and then every jump in the list that goes to the label of the mark is
sent to that one at once.

* `Fold.Pass.step`, `Fold.Pass.run` — one round and all of them;
* `Fold.Pass.Round` — what a round can do;
* `Fold.Pass.outcome` — what is to come of a list that is folded as far as the index;
* `Fold.Pass.Round.outcome_eq` — a round does not change what is to come;
* `Fold.Pass.run_eq_instructions` — so the list that is left at the end holds the instructions of
  the entries.
-/

set_option autoImplicit false

namespace Clerk

theorem Op.retarget_id (op : Op) : op.retarget id = op := by
  cases op <;> rfl

theorem Op.retarget_retarget (rename rename' : String → String) (op : Op) :
    (op.retarget rename).retarget rename' = op.retarget (rename' ∘ rename) := by
  cases op <;> rfl

namespace Entry

/-- The entry with the label of its jump replaced. -/
def retarget (rename : String → String) (entry : Entry) : Entry :=
  { entry with op := entry.op.map (Op.retarget rename) }

@[simp]
theorem label_retarget (rename : String → String) (entry : Entry) :
    (entry.retarget rename).label = entry.label :=
  rfl

theorem retarget_id (entry : Entry) : entry.retarget id = entry := by
  obtain ⟨op, label, comment⟩ := entry
  cases op with
  | none => rfl
  | some op => rw [retarget, Option.map_some, Op.retarget_id]

theorem retarget_retarget (rename rename' : String → String) (entry : Entry) :
    (entry.retarget rename).retarget rename' = entry.retarget (rename' ∘ rename) := by
  obtain ⟨op, label, comment⟩ := entry
  cases op with
  | none => rfl
  | some op => simp only [retarget, Option.map_some, Op.retarget_retarget]

end Entry

namespace Fold

/-! ## Targets under folding -/

theorem aliases_none_cons (entry : Entry) (rest : List Entry) :
    aliases none (entry :: rest) = aliases (entry.handOn none) rest :=
  rfl

theorem map_settle_op {entry : Entry} {op : Op} (hop : entry.op = some op) (rest : List Entry) :
    (settle none (entry :: rest)).map Instruction.toEntry =
      entry :: (settle none rest).map Instruction.toEntry := by
  obtain ⟨_, label, comment⟩ := entry
  cases hop
  simp [settle, Instruction.toEntry]

/-- Targets can be renamed before settling or after it. -/
theorem settle_map_retarget (rename : String → String) (carried : Option String)
    (entries : List Entry) :
    settle carried (entries.map (Entry.retarget rename)) =
      (settle carried entries).map (Instruction.retarget rename) := by
  induction entries generalizing carried with
  | nil => rfl
  | cons entry rest ih =>
    cases hop : entry.op with
    | none => simp [settle, Entry.handOn, Entry.retarget, hop, ← ih]
    | some op => simp [settle, Entry.retarget, Instruction.retarget, hop, ← ih]

theorem aliases_map_retarget (rename : String → String) (carried : Option String)
    (entries : List Entry) :
    aliases carried (entries.map (Entry.retarget rename)) = aliases carried entries := by
  induction entries generalizing carried with
  | nil => rfl
  | cons entry rest ih =>
    have hhand : (entry.retarget rename).handOn carried = entry.handOn carried := by
      cases hop : entry.op <;> simp [Entry.handOn, Entry.retarget, hop]
    simp [aliases, hhand, ih]

theorem map_toEntry_retarget (rename : String → String) (instructions : List Instruction) :
    (instructions.map (Instruction.retarget rename)).map Instruction.toEntry =
      (instructions.map Instruction.toEntry).map (Entry.retarget rename) := by
  rw [List.map_map, List.map_map]
  rfl

/-! ## Handing a label over -/

/-- Sends what goes to `old` to `new`. -/
def redirect (old new target : String) : String :=
  if target = old then new else target

theorem redirect_self (label : String) : redirect label label = id := by
  funext target
  unfold redirect
  split
  · rename_i heq
    exact heq.symm
  · rfl

/-- Hands a label to the entry at an index, if there is one.  An entry that has a label keeps it,
and the jumps to the other one are sent there. -/
def handTo (label : String) (index : Nat) (entries : List Entry) : List Entry :=
  match entries[index]? with
  | none => entries
  | some next =>
    let own := next.label.getD label
    let labelled := entries.set index { next with label := some own }
    if own = label then labelled else labelled.map (Entry.retarget (redirect label own))

theorem handTo_append (label : String) (kept : List Entry) (next : Entry) (rest : List Entry) :
    handTo label kept.length (kept ++ next :: rest) =
      (kept ++ { next with label := some (next.label.getD label) } :: rest).map
        (Entry.retarget (redirect label (next.label.getD label))) := by
  have hnext : (kept ++ next :: rest)[kept.length]? = some next := by simp
  have hset : ∀ entry, (kept ++ next :: rest).set kept.length entry = kept ++ entry :: rest := by
    intro entry
    simp
  unfold handTo
  simp only [hnext, hset]
  split
  · rename_i hown
    rw [hown, redirect_self, funext Entry.retarget_id, List.map_id']
  · rfl

section Labelled

variable {label own : String} {next : Entry}

theorem or_labelled (hown : next.label.getD label = own) :
    next.label.or (some label) = some own := by
  rw [← hown]
  cases next.label <;> rfl

theorem handOn_labelled (hown : next.label.getD label = own) :
    Entry.handOn none { next with label := some own } = next.handOn (some label) := by
  cases hop : next.op with
  | none =>
    rw [handOn_mark hop, or_labelled hown]
    rfl
  | some op =>
    rw [handOn_op hop]
    rfl

theorem settle_labelled (hown : next.label.getD label = own) (rest : List Entry) :
    settle none ({ next with label := some own } :: rest) = settle (some label) (next :: rest) := by
  rw [settle, settle, handOn_labelled hown, or_labelled hown]
  rfl

theorem renamed_labelled (hown : next.label.getD label = own) (rest : List Entry) :
    renamed (aliases none ({ next with label := some own } :: rest)) ∘ redirect label own =
      renamed (aliases (some label) (next :: rest)) := by
  funext target
  have hgive : redirect label own target = giveWay (some label) next.label target := by
    rw [← hown]
    cases next.label with
    | none => exact congrFun (redirect_self label) target
    | some name => rfl
  rw [Function.comp_apply, renamed_aliases_cons, renamed_aliases_cons, handOn_labelled hown, hgive]
  rfl

end Labelled

/-! ## The rounds -/

/-- A list that is being folded, with the index of the entry that is looked at next. -/
structure Pass where
  entries : List Entry
  index : Nat

namespace Pass

/-- One round; there is none after the last entry. -/
def step (pass : Pass) : Option Pass :=
  match pass.entries[pass.index]? with
  | none => none
  | some entry =>
    if entry.isMark then
      let left := pass.entries.eraseIdx pass.index
      match entry.label with
      | none => some ⟨left, pass.index⟩
      | some label => some ⟨handTo label pass.index left, pass.index⟩
    else some ⟨pass.entries, pass.index + 1⟩

/-- What a round makes of a list.  To send jumps to the label that they have already changes
nothing, so that case needs no constructor of its own. -/
inductive Round : Pass → Pass → Prop
  | keep {kept rest : List Entry} {entry : Entry} {op : Op} (hop : entry.op = some op) :
    Round ⟨kept ++ entry :: rest, kept.length⟩ ⟨kept ++ entry :: rest, kept.length + 1⟩
  | drop {kept rest : List Entry} {mark : Entry} (hmark : mark.op = none)
      (hlost : mark.label = none ∨ rest = []) :
    Round ⟨kept ++ mark :: rest, kept.length⟩ ⟨kept ++ rest, kept.length⟩
  | hand {kept rest : List Entry} {mark next : Entry} {label own : String}
      (hmark : mark.op = none) (hlabel : mark.label = some label)
      (hown : next.label.getD label = own) :
    Round ⟨kept ++ mark :: next :: rest, kept.length⟩
      ⟨(kept ++ { next with label := some own } :: rest).map
        (Entry.retarget (redirect label own)), kept.length⟩

/-- A list is cut at the entry that is looked at. -/
theorem exists_cut {entries : List Entry} {index : Nat} {entry : Entry}
    (h : entries[index]? = some entry) :
    ∃ kept rest, entries = kept ++ entry :: rest ∧ index = kept.length := by
  obtain ⟨hin, rfl⟩ := List.getElem?_eq_some_iff.1 h
  refine ⟨entries.take index, entries.drop (index + 1), ?_, ?_⟩
  · rw [List.getElem_cons_drop, List.take_append_drop]
  · rw [List.length_take_of_le (Nat.le_of_lt hin)]

theorem round_of_step {pass next : Pass} (h : pass.step = some next) : Round pass next := by
  obtain ⟨entries, index⟩ := pass
  unfold step at h
  split at h
  · cases h
  · rename_i entry hentry
    obtain ⟨kept, rest, rfl, rfl⟩ := exists_cut hentry
    have herase : (kept ++ entry :: rest).eraseIdx kept.length = kept ++ rest := by
      simp [List.eraseIdx_append_of_length_le]
    simp only [herase] at h
    cases hop : entry.op with
    | some op =>
      rw [if_neg (by simp [Entry.isMark, hop])] at h
      cases h
      exact .keep hop
    | none =>
      rw [if_pos (by simp [Entry.isMark, hop])] at h
      split at h
      · rename_i hlabel
        cases h
        exact .drop hop (Or.inl hlabel)
      · rename_i label hlabel
        cases h
        cases rest with
        | nil =>
          have hend : handTo label kept.length (kept ++ []) = kept ++ [] := by simp [handTo]
          rw [hend]
          exact .drop hop (Or.inr rfl)
        | cons next rest =>
          rw [handTo_append]
          exact .hand hop hlabel rfl

theorem length_le_of_step {pass : Pass} (h : pass.step = none) :
    pass.entries.length ≤ pass.index := by
  unfold step at h
  split at h
  · rename_i hnone
    exact List.getElem?_eq_none_iff.1 hnone
  · simp only at h
    split at h
    · split at h <;> cases h
    · cases h

/-- Every round leaves fewer entries to look at. -/
theorem Round.left_lt {pass next : Pass} (h : Round pass next) :
    next.entries.length - next.index < pass.entries.length - pass.index := by
  cases h with
  | keep =>
    simp only [List.length_append, List.length_cons]
    omega
  | drop => simp
  | hand => simp

/-- The list after all rounds. -/
def run (pass : Pass) : List Entry :=
  match _ : pass.step with
  | none => pass.entries
  | some next => next.run
termination_by pass.entries.length - pass.index
decreasing_by exact (round_of_step ‹_›).left_lt

/-! ## What is to come -/

/-- What is to come of a list: the entries before the index as they are and the others settled, with
the jumps in all of them renamed by the labels that give way after the index. -/
def outcome (pass : Pass) : List Entry :=
  (pass.entries.take pass.index
      ++ (settle none (pass.entries.drop pass.index)).map Instruction.toEntry).map
    (Entry.retarget (renamed (aliases none (pass.entries.drop pass.index))))

theorem outcome_append (kept ahead : List Entry) :
    outcome ⟨kept ++ ahead, kept.length⟩ =
      (kept ++ (settle none ahead).map Instruction.toEntry).map
        (Entry.retarget (renamed (aliases none ahead))) := by
  simp [outcome]

theorem outcome_mark {mark : Entry} (hmark : mark.op = none) (kept rest : List Entry) :
    outcome ⟨kept ++ mark :: rest, kept.length⟩ =
      (kept ++ (settle (mark.handOn none) rest).map Instruction.toEntry).map
        (Entry.retarget (renamed (aliases (mark.handOn none) rest))) := by
  rw [outcome_append, settle, hmark, aliases_none_cons]

/-- What is to come stays the same if targets are renamed now and not later. -/
theorem outcome_map_retarget (rename : String → String) (kept ahead : List Entry) :
    outcome ⟨(kept ++ ahead).map (Entry.retarget rename), kept.length⟩ =
      (kept ++ (settle none ahead).map Instruction.toEntry).map
        (Entry.retarget (renamed (aliases none ahead) ∘ rename)) := by
  have hkept : kept.length = (kept.map (Entry.retarget rename)).length := by simp
  rw [List.map_append, hkept, outcome_append, settle_map_retarget, aliases_map_retarget,
    map_toEntry_retarget, ← List.map_append, List.map_map]
  refine List.map_congr_left fun entry _ => ?_
  exact Entry.retarget_retarget rename _ entry

/-- A round does not change what is to come. -/
theorem Round.outcome_eq {pass next : Pass} (h : Round pass next) :
    next.outcome = pass.outcome := by
  cases h with
  | @keep kept rest entry op hop =>
    have hmoved : (⟨kept ++ entry :: rest, kept.length + 1⟩ : Pass) =
        ⟨(kept ++ [entry]) ++ rest, (kept ++ [entry]).length⟩ := by simp
    rw [hmoved, outcome_append, outcome_append, map_settle_op hop, aliases_none_cons,
      handOn_op hop, List.append_assoc]
    rfl
  | @drop kept rest mark hmark hlost =>
    rw [outcome_append, outcome_mark hmark]
    rcases hlost with hlabel | rfl
    · rw [handOn_mark hmark, hlabel]
      rfl
    · rfl
  | @hand kept rest mark next label own hmark hlabel hown =>
    have hhand : mark.handOn none = some label := by
      rw [handOn_mark hmark, hlabel]
      rfl
    rw [outcome_map_retarget, outcome_mark hmark, hhand, settle_labelled hown,
      renamed_labelled hown]

theorem run_eq_outcome (pass : Pass) : pass.run = pass.outcome := by
  -- by the rounds; after the last one nothing is ahead, and no label is left to rename
  fun_induction run pass with
  | case1 pass hstep =>
    have hend := length_le_of_step hstep
    have hrename : renamed [] = id := rfl
    rw [outcome, List.drop_of_length_le hend, List.take_of_length_le hend]
    simp [settle, aliases, hrename, funext Entry.retarget_id]
  | case2 pass next hstep ih => rw [ih, (round_of_step hstep).outcome_eq]

/-- **Folding in place gives the instructions of the entries.** -/
theorem run_eq_instructions (entries : List Entry) :
    run ⟨entries, 0⟩ = (instructions entries).map Instruction.toEntry := by
  rw [run_eq_outcome, instructions, map_toEntry_retarget]
  exact outcome_append [] entries

end Pass

end Fold

end Clerk
