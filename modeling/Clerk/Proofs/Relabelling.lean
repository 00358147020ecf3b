import Clerk.Proofs.Jumps
import Clerk.Proofs.WellFormed
import Mathlib.Data.List.Forall2
import Mathlib.Data.Set.Function

/-!
# Names of labels are cosmetic

Labels are compared with each other when marks are folded, when the label table is made, when jumps
are renamed and when a jump is taken.  Nothing else is done with them, and nothing at all with
comments.  So entries whose labels and targets are renamed, no two of them alike, and whose
comments are replaced give the same program up to these names, or the same error, and the two
programs run alike.

* `LabelTable.extend_relabel`, `Fold.renamed_relabelled` — the label table and the targets of
  renamed labels;
* `Fold.bindings_relabelled`, `Fold.labels_relabelled`, `Fold.ops_relabelled` — the passes over
  renamed entries;
* `Program.relabelled_ofEntries` — the programs of renamed entries and their runs.
-/

set_option autoImplicit false

namespace Clerk

variable {rename : String → String}

/-- The second entry is the first with its label and the target of its jump renamed.  Its comment
may be any. -/
structure Entry.Relabelled (rename : String → String) (entry entry' : Entry) : Prop where
  op : entry'.op = entry.op.map (Op.retarget rename)
  label : entry'.label = entry.label.map rename

/-- The error with the label that it names replaced. -/
def Error.relabel (rename : String → String) : Error → Error
  | .duplicateLabel label => .duplicateLabel (rename label)
  | error => error

/-! ## Tables -/

namespace LabelTable

/-- The table with its labels renamed. -/
def relabel (rename : String → String) (table : LabelTable) : LabelTable :=
  table.map fun binding => (rename binding.1, binding.2)

variable {names : Set String}

theorem relabel_append (rename : String → String) (table rest : LabelTable) :
    relabel rename (table ++ rest) = relabel rename table ++ relabel rename rest :=
  List.map_append

theorem lookup_relabel (hinj : Set.InjOn rename names) {table : LabelTable}
    (htable : ∀ binding ∈ table, binding.1 ∈ names) {label : String} (hlabel : label ∈ names) :
    (table.relabel rename).lookup (rename label) = table.lookup label := by
  unfold relabel
  induction table with
  | nil => rfl
  | cons binding rest ih =>
    obtain ⟨hbinding, hrest⟩ := List.forall_mem_cons.1 htable
    have hsame : (rename label == rename binding.1) = (label == binding.1) := by
      rw [Bool.eq_iff_iff, beq_iff_eq, beq_iff_eq, hinj.eq_iff hlabel hbinding]
    rw [List.map_cons, List.lookup_cons, List.lookup_cons, hsame, ih hrest]

/-- **A table of renamed bindings is the table renamed**, or the same binding is refused. -/
theorem extend_relabel (hinj : Set.InjOn rename names) {table : LabelTable}
    {bindings : List (String × Nat)} (htable : ∀ binding ∈ table, binding.1 ∈ names)
    (hbindings : ∀ binding ∈ bindings, binding.1 ∈ names) :
    extend (relabel rename table) (relabel rename bindings) =
      ((extend table bindings).map (relabel rename)).mapError (Error.relabel rename) := by
  fun_induction extend table bindings with
  | case1 table => rfl
  | case2 table label position rest hnone ih =>
    obtain ⟨hlabel, hrest⟩ := List.forall_mem_cons.1 hbindings
    have hnew : ∀ binding ∈ table ++ [(label, position)], binding.1 ∈ names :=
      List.forall_mem_append.2 ⟨htable, List.forall_mem_singleton.2 hlabel⟩
    rw [← ih hnew hrest, relabel_append]
    show extend _ ((rename label, position) :: relabel rename rest) = _
    rw [extend, lookup_relabel hinj htable hlabel, hnone]
    rfl
  | case3 table label rest position hbound ih =>
    obtain ⟨hlabel, hrest⟩ := List.forall_mem_cons.1 hbindings
    rw [← ih htable hrest]
    show extend _ ((rename label, position) :: relabel rename rest) = _
    rw [extend, lookup_relabel hinj htable hlabel, hbound]
    simp only [if_pos]
  | case4 table label position rest bound hbound hne =>
    obtain ⟨hlabel, hrest⟩ := List.forall_mem_cons.1 hbindings
    show extend _ ((rename label, position) :: relabel rename rest) = _
    rw [extend, lookup_relabel hinj htable hlabel, hbound]
    simp only [if_neg hne]
    rfl

/-- A table has no bindings but those it is made from. -/
theorem mem_of_mem_extend {table result : LabelTable} {bindings : List (String × Nat)}
    (h : table.extend bindings = .ok result) {binding : String × Nat} (hmem : binding ∈ result) :
    binding ∈ table ∨ binding ∈ bindings := by
  fun_induction extend table bindings with
  | case1 table =>
    cases h
    exact Or.inl hmem
  | case2 table label position rest hnone ih =>
    rcases ih h with hearlier | hlater
    · rcases List.mem_append.1 hearlier with hearlier | hnew
      · exact Or.inl hearlier
      · exact Or.inr (List.mem_cons.2 (Or.inl (List.mem_singleton.1 hnew)))
    · exact Or.inr (List.mem_cons_of_mem _ hlater)
  | case3 table label position rest hbound ih =>
    exact (ih h).imp_right (List.mem_cons_of_mem _)
  | case4 => cases h

/-- A table is refused for no other reason than a label bound to two places. -/
theorem duplicateLabel_of_extend {table : LabelTable} {bindings : List (String × Nat)}
    {error : Error} (h : table.extend bindings = .error error) :
    ∃ label, error = .duplicateLabel label := by
  fun_induction extend table bindings with
  | case1 => cases h
  | case2 table label position rest hnone ih => exact ih h
  | case3 table label position rest hbound ih => exact ih h
  | case4 table label position rest bound hbound hne =>
    cases h
    exact ⟨label, rfl⟩

end LabelTable

/-! ## Folding -/

namespace Fold

/-- The labels and targets that occur in entries. -/
def names (entries : List Entry) : Set String :=
  {name | ∃ entry ∈ entries, name ∈ entry.names}

/-- The comments of the operations. -/
def comments (entries : List Entry) : List (Option String) :=
  (entries.filter fun entry => !entry.isMark).map Entry.comment

variable {entries entries' : List Entry}

theorem bindings_relabelled (h : List.Forall₂ (Entry.Relabelled rename) entries entries')
    (position : Nat) :
    bindings position entries' = LabelTable.relabel rename (bindings position entries) := by
  induction h generalizing position with
  | nil => rfl
  | @cons entry entry' rest rest' hentry _ ih =>
    have hmark : entry'.isMark = entry.isMark := by simp [Entry.isMark, hentry.op]
    rw [bindings, bindings, LabelTable.relabel_append, hmark, ih, hentry.label]
    cases entry.label <;> rfl

theorem handOn_relabelled {entry entry' : Entry} (h : Entry.Relabelled rename entry entry')
    (carried : Option String) :
    entry'.handOn (carried.map rename) = (entry.handOn carried).map rename := by
  unfold Entry.handOn
  rw [h.op, h.label]
  cases entry.op with
  | none => cases entry.label <;> rfl
  | some op => rfl

/-- The labels of the operations, the one handed to the first of them included. -/
theorem labels_relabelled (h : List.Forall₂ (Entry.Relabelled rename) entries entries')
    (carried : Option String) :
    (settle (carried.map rename) entries').map Instruction.label =
      ((settle carried entries).map Instruction.label).map (Option.map rename) := by
  induction h generalizing carried with
  | nil => rfl
  | @cons entry entry' rest rest' hentry _ ih =>
    cases hop : entry.op with
    | none =>
      simp only [settle, hentry.op, hop, Option.map_none, handOn_relabelled hentry]
      exact ih _
    | some op =>
      have hlabel : (entry.label.map rename).or (carried.map rename) =
          (entry.label.or carried).map rename := by
        cases entry.label <;> rfl
      simp only [settle, hentry.op, hentry.label, hop, Option.map_some, hlabel, List.map_cons]
      exact congrArg _ (ih none)

theorem ops_relabelled (h : List.Forall₂ (Entry.Relabelled rename) entries entries') :
    entries'.filterMap Entry.op = (entries.filterMap Entry.op).map (Op.retarget rename) := by
  induction h with
  | nil => rfl
  | @cons entry entry' rest rest' hentry _ ih =>
    cases hop : entry.op with
    | none => simp [hentry.op, hop, ih]
    | some op => simp [hentry.op, hop, ih]

theorem comments_settle (entries : List Entry) (carried : Option String) :
    (settle carried entries).map Instruction.comment = comments entries := by
  unfold comments
  induction entries generalizing carried with
  | nil => rfl
  | cons entry rest ih =>
    cases hop : entry.op with
    | none => simp [settle, hop, Entry.isMark, ih]
    | some op => simp [settle, hop, Entry.isMark, ih]

theorem label_mem_names {entry : Entry} (hmem : entry ∈ entries) {label : String}
    (h : entry.label = some label) : label ∈ names entries :=
  ⟨entry, hmem, List.mem_append_left _ (Option.mem_toList.2 h)⟩

theorem bound_mem_names {binding : String × Nat} {position : Nat}
    (h : binding ∈ bindings position entries) : binding.1 ∈ names entries := by
  obtain ⟨before, entry, after, rfl, hlabel, -⟩ := (mem_bindings entries position).1 h
  exact label_mem_names (by simp) hlabel

theorem target_mem_names {op : Op} (hmem : op ∈ entries.filterMap Entry.op) {target : String}
    (h : op.target? = some target) : target ∈ names entries := by
  obtain ⟨entry, hentry, hop⟩ := List.mem_filterMap.1 hmem
  refine ⟨entry, hentry, List.mem_append_right _ (Option.mem_toList.2 ?_)⟩
  rw [hop]
  exact h

/-! ## Renamings of renamed labels -/

variable {known : Set String}

theorem handOn_mem {entry : Entry} {carried : Option String}
    (hcarried : ∀ old ∈ carried, old ∈ known) (hlabel : ∀ label ∈ entry.label, label ∈ known) :
    ∀ label ∈ entry.handOn carried, label ∈ known := by
  intro label hmem
  unfold Entry.handOn at hmem
  split at hmem
  · rcases carried_or_own hmem with h | h
    · exact hcarried label h
    · exact hlabel label h
  · cases hmem

theorem giveWay_mem {carried own : Option String} {target : String}
    (hown : ∀ label ∈ own, label ∈ known) (htarget : target ∈ known) :
    giveWay carried own target ∈ known := by
  unfold giveWay
  split
  · split
    · exact hown _ rfl
    · exact htarget
  · exact htarget

theorem giveWay_relabel (hinj : Set.InjOn rename known) {carried own : Option String}
    {target : String} (hcarried : ∀ old ∈ carried, old ∈ known) (htarget : target ∈ known) :
    giveWay (carried.map rename) (own.map rename) (rename target) =
      rename (giveWay carried own target) := by
  cases carried with
  | none => rfl
  | some old =>
    cases own with
    | none => rfl
    | some new =>
      simp only [giveWay, Option.map_some, hinj.eq_iff htarget (hcarried old rfl)]
      split <;> rfl

/-- **A renamed label ends up as the renamed form of what it ends up as.** -/
theorem renamed_relabelled (hinj : Set.InjOn rename known)
    (h : List.Forall₂ (Entry.Relabelled rename) entries entries')
    (hentries : ∀ entry ∈ entries, ∀ label ∈ entry.label, label ∈ known)
    {carried : Option String} (hcarried : ∀ old ∈ carried, old ∈ known) {target : String}
    (htarget : target ∈ known) :
    renamed (aliases (carried.map rename) entries') (rename target) =
      rename (renamed (aliases carried entries) target) := by
  induction h generalizing carried target with
  | nil => rfl
  | @cons entry entry' rest rest' hentry _ ih =>
    obtain ⟨hlabel, hrest⟩ := List.forall_mem_cons.1 hentries
    rw [renamed_aliases_cons, renamed_aliases_cons, handOn_relabelled hentry, hentry.label,
      giveWay_relabel hinj hcarried htarget]
    exact ih hrest (handOn_mem hcarried hlabel) (giveWay_mem hlabel htarget)

end Fold

/-! ## Programs -/

namespace Program

open Fold

/-- The second program is the first with its labels, its targets and the labels of its table
renamed, and with these comments.  The order and the positions in the table stay. -/
structure Relabelled (rename : String → String) (comments : List (Option String))
    (p q : Program) : Prop where
  ops : q.instructions.toList.map Instruction.op =
    (p.instructions.toList.map Instruction.op).map (Op.retarget rename)
  labels : q.instructions.toList.map Instruction.label =
    (p.instructions.toList.map Instruction.label).map (Option.map rename)
  comments_eq : q.instructions.toList.map Instruction.comment = comments
  table : q.labels = p.labels.map fun binding => (rename binding.1, binding.2)

variable {entries entries' : List Entry} {p q : Program}

theorem duplicateLabel_of_ofEntries {error : Error} (h : ofEntries entries = .error error) :
    ∃ label, error = .duplicateLabel label := by
  unfold ofEntries at h
  exact LabelTable.duplicateLabel_of_extend (eq_error_of_bind_pure h)

/-- The tables of entries and of renamed entries, or the errors that stand in their place. -/
theorem table_relabelled (hinj : Set.InjOn rename (names entries))
    (h : List.Forall₂ (Entry.Relabelled rename) entries entries') :
    LabelTable.extend [] (bindings 0 entries') =
      ((LabelTable.extend [] (bindings 0 entries)).map (LabelTable.relabel rename)).mapError
        (Error.relabel rename) := by
  rw [bindings_relabelled h]
  show LabelTable.extend (LabelTable.relabel rename []) _ = _
  exact LabelTable.extend_relabel hinj (by simp) fun binding hmem => bound_mem_names hmem

theorem labels_ofEntries (h : ofEntries entries = .ok p) :
    p.instructions.toList.map Instruction.label = (settle none entries).map Instruction.label := by
  rw [(ofEntries_ok h).2, Fold.instructions, List.map_map]
  rfl

theorem comments_ofEntries (h : ofEntries entries = .ok p) :
    p.instructions.toList.map Instruction.comment = comments entries := by
  rw [(ofEntries_ok h).2, Fold.instructions, ← comments_settle entries none, List.map_map]
  rfl

/-- Renaming the labels of entries and renaming a target by folding can be done in either order. -/
theorem renamed_target (hinj : Set.InjOn rename (names entries))
    (h : List.Forall₂ (Entry.Relabelled rename) entries entries') {target : String}
    (htarget : target ∈ names entries) :
    renamed (aliases none entries') (rename target) =
      rename (renamed (aliases none entries) target) := by
  have hentries : ∀ entry ∈ entries, ∀ label ∈ entry.label, label ∈ names entries :=
    fun entry hmem label hlabel => label_mem_names hmem hlabel
  have hnone : ∀ old ∈ (none : Option String), old ∈ names entries := by simp
  exact renamed_relabelled hinj h hentries hnone htarget

theorem relabelled_of_ok (hinj : Set.InjOn rename (names entries))
    (h : List.Forall₂ (Entry.Relabelled rename) entries entries')
    (hp : ofEntries entries = .ok p) (hq : ofEntries entries' = .ok q) :
    Relabelled rename (comments entries') p q where
  ops := by
    rw [ops_ofEntries hp, ops_ofEntries hq, ops_relabelled h, List.map_map, List.map_map]
    refine List.map_congr_left fun op hmem => ?_
    cases op with
    | jump test target =>
      exact congrArg (Op.jump test) (renamed_target hinj h (target_mem_names hmem rfl))
    | inbox => rfl
    | outbox => rfl
    | cell kind address => rfl
  labels := by
    rw [labels_ofEntries hp, labels_ofEntries hq]
    exact labels_relabelled h none
  comments_eq := comments_ofEntries hq
  table := by
    have htable := table_relabelled hinj h
    rw [(ofEntries_ok hp).1, (ofEntries_ok hq).1] at htable
    exact Except.ok.inj htable

theorem renamedJumps_of_ok (hinj : Set.InjOn rename (names entries))
    (h : List.Forall₂ (Entry.Relabelled rename) entries entries')
    (hp : ofEntries entries = .ok p) (hq : ofEntries entries' = .ok q) :
    RenamedJumps p q rename where
  ops := (relabelled_of_ok hinj h hp hq).ops
  resolve instruction hmem target htarget := by
    obtain ⟨op, hop, original, horiginal, rfl⟩ := target_of_mem hp hmem htarget
    have hname : original ∈ names entries := target_mem_names hop horiginal
    have hkeys : ∀ binding ∈ p.labels, binding.1 ∈ names entries := by
      intro binding hbinding
      rcases LabelTable.mem_of_mem_extend (ofEntries_ok hp).1 hbinding with hnone | hbound
      · cases hnone
      · exact bound_mem_names hbound
    calc q.resolve (rename (renamed (aliases none entries) original))
        = q.resolve (renamed (aliases none entries') (rename original)) := by
          rw [renamed_target hinj h hname]
      _ = q.resolve (rename original) := resolve_renamed hq (rename original)
      _ = p.resolve original := by
          rw [resolve, (relabelled_of_ok hinj h hp hq).table]
          exact LabelTable.lookup_relabel hinj hkeys hname
      _ = p.resolve (renamed (aliases none entries) original) := (resolve_renamed hp original).symm

/-- **Names of labels and comments are cosmetic.**  When the labels and targets of entries are
renamed, no two of them alike, and the comments replaced, the program is made or refused as before.
It is the same program up to the names, with the new comments; a refusal names the renamed label.
The two programs say the same at every step, up to the label that a fault names, and are in the same
state after it. -/
theorem relabelled_ofEntries
    (hinj : Set.InjOn rename {name | ∃ entry ∈ entries, name ∈ entry.names})
    (h : List.Forall₂ (Entry.Relabelled rename) entries entries') :
    (∀ p, ofEntries entries = .ok p → ∃ q, ofEntries entries' = .ok q ∧
      Relabelled rename (comments entries') p q ∧
        ∀ session n, Machine.trace q n (Machine.start session) =
          (Machine.trace p n (Machine.start session)).map
            fun state => (state.1.relabel rename, state.2)) ∧
    (∀ q, ofEntries entries' = .ok q → ∃ p, ofEntries entries = .ok p) ∧
    (∀ error, ofEntries entries = .error error → ∃ label, error = .duplicateLabel label ∧
      ofEntries entries' = .error (.duplicateLabel (rename label))) := by
  have herror : ∀ error, ofEntries entries = .error error → ∃ label,
      error = .duplicateLabel label ∧
        ofEntries entries' = .error (.duplicateLabel (rename label)) := by
    intro error hentries
    obtain ⟨label, rfl⟩ := duplicateLabel_of_ofEntries hentries
    refine ⟨label, rfl, ?_⟩
    rw [ofEntries, table_relabelled hinj h, eq_error_of_bind_pure hentries]
    rfl
  refine ⟨fun p hp => ?_, fun q hq => ?_, herror⟩
  · obtain ⟨q, hq⟩ : ∃ q, ofEntries entries' = .ok q := by
      rw [ofEntries, table_relabelled hinj h, (ofEntries_ok hp).1]
      exact ⟨_, rfl⟩
    exact ⟨q, hq, relabelled_of_ok hinj h hp hq, fun session n =>
      Machine.trace_of_renamedJumps (renamedJumps_of_ok hinj h hp hq) n (Machine.start session)⟩
  · cases hentries : ofEntries entries with
    | ok p => exact ⟨p, rfl⟩
    | error error =>
      obtain ⟨label, -, hrefused⟩ := herror error hentries
      rw [hrefused] at hq
      cases hq

/-- Gives the name of one label to another, which gets a new name. -/
def handedOver (name : String) : String :=
  if name = "a" then "b" else if name = "b" then "f" else name

/-- The stacked marks with other names, and with comments. -/
def restacked : List Entry :=
  stacked.map fun entry => ⟨entry.op.map (Op.retarget handedOver), entry.label.map handedOver,
    some "renamed"⟩

theorem injOn_handedOver :
    Set.InjOn handedOver {name | ∃ entry ∈ stacked, name ∈ entry.names} := by
  have hlist : ∀ name ∈ stacked.flatMap Entry.names, ∀ other ∈ stacked.flatMap Entry.names,
      handedOver name = handedOver other → name = other := by decide
  intro name hname other hother
  exact hlist name (List.mem_flatMap.2 hname) other (List.mem_flatMap.2 hother)

theorem relabelled_ofEntries_stacked :
    ∃ p, ofEntries stacked = .ok p ∧ ∃ q, ofEntries restacked = .ok q ∧
      Relabelled handedOver (comments restacked) p q ∧
        ∀ session n, Machine.trace q n (Machine.start session) =
          (Machine.trace p n (Machine.start session)).map
            fun state => (state.1.relabel handedOver, state.2) := by
  have hentries : List.Forall₂ (Entry.Relabelled handedOver) stacked restacked :=
    List.forall₂_map_right_iff.2 (List.forall₂_same.2 fun _ _ => ⟨rfl, rfl⟩)
  exact ⟨_, rfl, (relabelled_ofEntries injOn_handedOver hentries).1 _ rfl⟩

end Program

end Clerk
