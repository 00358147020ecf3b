import Clerk.Proofs.LabelTable

/-!
# Labels under folding

Folding hands labels on from mark to mark and renames the jumps to a label that gives way, while
the label table is made from the entries as they stand.  The two agree because every label of a
run of marks is renamed, in one or more steps, to the label that the place ends up with.

* `Fold.places` — the label of each place of a folded program, the place after its last
  instruction included;
* `Fold.place_of_bound` — a label bound to a place is renamed to the label of that place, provided
  that no label is bound to two places;
* `Fold.bound_of_place` — the label of a place is bound to it;
* `Fold.renamed_of_not_bound` — a label that is not bound is not renamed.
-/

set_option autoImplicit false

namespace Clerk

@[simp]
theorem Op.target?_retarget (rename : String → String) (op : Op) :
    (op.retarget rename).target? = op.target?.map rename := by
  cases op <;> rfl

namespace Fold

/-! ## Places -/

/-- The label that is left over at the end of the entries. -/
def leftOver (carried : Option String) (entries : List Entry) : Option String :=
  entries.foldl Entry.handOn carried

/-- The label of each place of the folded program; the last place is its end. -/
def places (carried : Option String) (entries : List Entry) : List (Option String) :=
  (settle carried entries).map Instruction.label ++ [leftOver carried entries]

theorem handOn_mark {entry : Entry} (h : entry.op = none) (carried : Option String) :
    entry.handOn carried = entry.label.or carried := by
  rw [Entry.handOn, h]

theorem handOn_op {entry : Entry} {op : Op} (h : entry.op = some op) (carried : Option String) :
    entry.handOn carried = none := by
  rw [Entry.handOn, h]

theorem places_mark {entry : Entry} (h : entry.op = none) (carried : Option String)
    (rest : List Entry) :
    places carried (entry :: rest) = places (entry.label.or carried) rest := by
  simp [places, settle, leftOver, Entry.handOn, h]

theorem places_op {entry : Entry} {op : Op} (h : entry.op = some op) (carried : Option String)
    (rest : List Entry) :
    places carried (entry :: rest) = entry.label.or carried :: places none rest := by
  simp [places, settle, leftOver, Entry.handOn, h]

/-- Folding keeps the operations and their order. -/
theorem ops_settle (carried : Option String) (entries : List Entry) :
    (settle carried entries).map Instruction.op = entries.filterMap Entry.op := by
  induction entries generalizing carried with
  | nil => rfl
  | cons entry rest ih =>
    cases h : entry.op with
    | none => simp [settle, h, ih]
    | some op => simp [settle, h, ih]

theorem length_filterMap_op (entries : List Entry) :
    (entries.filterMap Entry.op).length = opCount entries := by
  induction entries with
  | nil => rfl
  | cons entry rest ih =>
    rw [opCount_cons]
    cases h : entry.op with
    | none => simp [h, ih, opCount_mark h]
    | some op => simp [h, ih, opCount_op h, Nat.add_comm]

theorem length_settle (carried : Option String) (entries : List Entry) :
    (settle carried entries).length = opCount entries := by
  rw [← length_filterMap_op, ← ops_settle carried, List.length_map]

/-! ## The bindings in force -/

/-- The bindings of the entries together with that of the label handed to the first of them. -/
def bound (carried : Option String) (position : Nat) (entries : List Entry) :
    List (String × Nat) :=
  carried.toList.map (·, position) ++ bindings position entries

theorem mem_bound {carried : Option String} {position place : Nat} {entries : List Entry}
    {label : String} :
    (label, place) ∈ bound carried position entries ↔
      (carried = some label ∧ place = position) ∨ (label, place) ∈ bindings position entries := by
  rw [bound, List.mem_append]
  refine or_congr_left ?_
  cases carried <;> simp [eq_comm]

theorem mem_bound_cons {carried : Option String} {position place : Nat} {entry : Entry}
    {rest : List Entry} {label : String} :
    (label, place) ∈ bound carried position (entry :: rest) ↔
      ((carried = some label ∨ entry.label = some label) ∧ place = position) ∨
        (label, place) ∈ bindings (position + opCount [entry]) rest := by
  rw [mem_bound, bindings_cons, List.mem_append]
  cases entry.label <;> simp [eq_comm, or_and_right, or_assoc]

/-- An entry ends up with the label handed to it or with its own. -/
theorem carried_or_own {carried own : Option String} {label : String}
    (h : own.or carried = some label) : carried = some label ∨ own = some label := by
  rcases Option.or_eq_some_iff.1 h with h | ⟨_, h⟩
  · exact Or.inr h
  · exact Or.inl h

/-- What is in force after an entry was so before it. -/
theorem bound_handOn_subset (carried : Option String) (position : Nat) (entry : Entry)
    (rest : List Entry) :
    bound (entry.handOn carried) (position + opCount [entry]) rest ⊆
      bound carried position (entry :: rest) := by
  rintro ⟨label, place⟩ hmem
  rw [mem_bound] at hmem
  rw [mem_bound_cons]
  rcases hmem with ⟨hcarried, rfl⟩ | hmem
  · unfold Entry.handOn at hcarried
    split at hcarried
    · rename_i hmark
      exact Or.inl ⟨carried_or_own hcarried, by rw [opCount_mark hmark]; rfl⟩
    · cases hcarried
  · exact Or.inr hmem

/-- No label is bound to two places. -/
def OnePlace (bindings : List (String × Nat)) : Prop :=
  ∀ label place place', (label, place) ∈ bindings → (label, place') ∈ bindings → place = place'

theorem OnePlace.mono {bindings bindings' : List (String × Nat)} (h : OnePlace bindings)
    (hsub : bindings' ⊆ bindings) : OnePlace bindings' :=
  fun label place place' h₁ h₂ => h label place place' (hsub h₁) (hsub h₂)

/-! ## Renaming -/

/-- A label after the renaming, if there is one, that an entry with a label brings about. -/
def giveWay (carried label : Option String) (target : String) : String :=
  match carried, label with
  | some old, some new => if target = old then new else target
  | _, _ => target

theorem renamed_aliases_cons (carried : Option String) (entry : Entry) (rest : List Entry)
    (target : String) :
    renamed (aliases carried (entry :: rest)) target =
      renamed (aliases (entry.handOn carried) rest) (giveWay carried entry.label target) := by
  cases carried with
  | none => rfl
  | some old =>
    cases hlabel : entry.label with
    | none => simp [aliases, giveWay, hlabel]
    | some new =>
      by_cases h : old = new
      · subst h
        have hsame : giveWay (some old) (some old) target = target := by
          simp only [giveWay]
          split
          · rename_i heq
            exact heq.symm
          · rfl
        simp [aliases, hlabel, hsame]
      · simp [aliases, hlabel, h, giveWay, renamed]

theorem giveWay_of_ne {carried label : Option String} {target : String}
    (h : carried ≠ some target) : giveWay carried label target = target := by
  cases carried with
  | none => rfl
  | some old =>
    have hne : target ≠ old := by
      rintro rfl
      exact h rfl
    cases label with
    | none => rfl
    | some new => simp [giveWay, hne]

/-- A label that is at an entry becomes the label that the entry ends up with. -/
theorem giveWay_eq_or {carried label : Option String} {target : String}
    (h : carried = some target ∨ label = some target) :
    label.or carried = some (giveWay carried label target) := by
  cases carried with
  | none =>
    rcases h with h | rfl
    · cases h
    · rfl
  | some old =>
    cases label with
    | none =>
      rcases h with h | h
      · exact h
      · cases h
    | some new =>
      rw [Option.some_or, Option.some_inj, giveWay]
      split
      · rfl
      · rename_i hne
        rcases h with h | h
        · exact absurd (Option.some.inj h).symm hne
        · exact Option.some.inj h

/-- A label that is not bound is not renamed. -/
theorem renamed_of_not_bound (carried : Option String) (position : Nat) (entries : List Entry)
    (target : String) (h : ∀ place, (target, place) ∉ bound carried position entries) :
    renamed (aliases carried entries) target = target := by
  induction entries generalizing carried position with
  | nil => rfl
  | cons entry rest ih =>
    have hne : carried ≠ some target := by
      intro hcarried
      exact h position (mem_bound.2 (Or.inl ⟨hcarried, rfl⟩))
    rw [renamed_aliases_cons, giveWay_of_ne hne]
    exact ih _ (position + opCount [entry])
      fun place hmem => h place (bound_handOn_subset carried position entry rest hmem)

/-- The label of an operation is bound to no later place. -/
theorem not_bound_after_op {carried : Option String} {position : Nat} {entry : Entry}
    {rest : List Entry} {op : Op} (hop : entry.op = some op)
    (hone : OnePlace (bound carried position (entry :: rest))) {label : String}
    (hlabel : entry.label.or carried = some label) (place : Nat) :
    (label, place) ∉ bound none (position + 1) rest := by
  intro hafter
  have hhere : (label, position) ∈ bound carried position (entry :: rest) :=
    mem_bound_cons.2 (Or.inl ⟨carried_or_own hlabel, rfl⟩)
  have hsubset := bound_handOn_subset carried position entry rest
  rw [handOn_op hop, opCount_op hop] at hsubset
  have hplace := hone _ _ _ hhere (hsubset hafter)
  have := place_le_of_mem_bindings ((mem_bound.1 hafter).resolve_left fun h => by cases h.1)
  omega

/-- **A label bound to a place is renamed to the label of that place.** -/
theorem place_of_bound (carried : Option String) (position : Nat) (entries : List Entry)
    (hone : OnePlace (bound carried position entries)) {target : String} {index : Nat}
    (hmem : (target, position + index) ∈ bound carried position entries) :
    (places carried entries)[index]? = some (some (renamed (aliases carried entries) target)) := by
  -- The invariant is that the current name of the target is bound to its place, by an entry still
  -- to come or by the label handed on.
  induction entries generalizing carried position target index with
  | nil =>
    simp only [mem_bound, bindings, List.not_mem_nil, or_false] at hmem
    obtain ⟨rfl, hindex⟩ := hmem
    obtain rfl : index = 0 := by omega
    rfl
  | cons entry rest ih =>
    have htail := hone.mono (bound_handOn_subset carried position entry rest)
    have hstep := mem_bound_cons.1 hmem
    rw [renamed_aliases_cons]
    cases hop : entry.op with
    | none =>
      rw [opCount_mark hop, Nat.add_zero] at htail hstep
      rw [handOn_mark hop] at htail ⊢
      rw [places_mark hop]
      refine ih _ position htail (mem_bound.2 ?_)
      rcases hstep with ⟨hhere, hindex⟩ | hlater
      · exact Or.inl ⟨giveWay_eq_or hhere, hindex⟩
      · by_cases hcarried : carried = some target
        · -- a target that comes back later is renamed all the same
          refine Or.inl ⟨giveWay_eq_or (Or.inl hcarried), ?_⟩
          exact hone target _ _ hmem (mem_bound.2 (Or.inl ⟨hcarried, rfl⟩))
        · rw [giveWay_of_ne hcarried]
          exact Or.inr hlater
    | some op =>
      rw [opCount_op hop] at htail hstep
      rw [handOn_op hop] at htail ⊢
      rw [places_op hop]
      rcases hstep with ⟨hhere, hindex⟩ | hlater
      · -- the place is settled here, and no later renaming touches its label
        obtain rfl : index = 0 := by omega
        have hlabel := giveWay_eq_or hhere
        rw [List.getElem?_cons_zero, hlabel,
          renamed_of_not_bound none (position + 1) rest _ (not_bound_after_op hop hone hlabel)]
      · have hrange := place_le_of_mem_bindings hlater
        obtain ⟨later, rfl⟩ : ∃ later, index = later + 1 := ⟨index - 1, by omega⟩
        have hne : carried ≠ some target := by
          intro hcarried
          have := hone target _ _ hmem (mem_bound.2 (Or.inl ⟨hcarried, rfl⟩))
          omega
        rw [List.getElem?_cons_succ, giveWay_of_ne hne]
        refine ih none (position + 1) htail (mem_bound.2 (Or.inr ?_))
        rwa [show position + 1 + later = position + (later + 1) by omega]

/-- **The label of a place is bound to it.** -/
theorem bound_of_place (carried : Option String) (position : Nat) (entries : List Entry)
    {label : String} {index : Nat} (h : (places carried entries)[index]? = some (some label)) :
    (label, position + index) ∈ bound carried position entries := by
  induction entries generalizing carried position index with
  | nil =>
    cases index with
    | zero => exact mem_bound.2 (Or.inl ⟨Option.some.inj h, rfl⟩)
    | succ index => simp [places, settle] at h
  | cons entry rest ih =>
    cases hop : entry.op with
    | none =>
      rw [places_mark hop] at h
      have hbound := bound_handOn_subset carried position entry rest
      rw [handOn_mark hop, opCount_mark hop] at hbound
      exact hbound (ih _ position h)
    | some op =>
      rw [places_op hop] at h
      cases index with
      | zero =>
        exact mem_bound_cons.2 (Or.inl ⟨carried_or_own (Option.some.inj h), rfl⟩)
      | succ index =>
        have hbound := bound_handOn_subset carried position entry rest
        rw [handOn_op hop, opCount_op hop] at hbound
        have := hbound (ih none (position + 1) h)
        rwa [show position + 1 + index = position + (index + 1) by omega] at this

end Fold

end Clerk
