import Clerk.Program

/-!
# What a label is bound to

`Fold.bindings` walks a list of entries and counts operations; `LabelTable.extend` collects the
bindings and refuses a label that is bound to two places.

* `Fold.mem_bindings` — a label is bound to the number of operations before an entry that has it;
* `Fold.lookup_bindings` — the first binding of a label is that of the first entry that has it;
* `LabelTable.mem_of_lookup_extend`, `LabelTable.lookup_extend_of_mem` — a table that is accepted
  finds exactly the bindings it is made from;
* `LabelTable.extend_of_nodup` — bindings without a repeated label are a table as they stand.
-/

set_option autoImplicit false

namespace Clerk

namespace Fold

/-- The number of operations in a list of entries. -/
def opCount (entries : List Entry) : Nat :=
  entries.countP fun entry => !entry.isMark

@[simp]
theorem opCount_nil : opCount [] = 0 := rfl

@[simp]
theorem opCount_append (before after : List Entry) :
    opCount (before ++ after) = opCount before + opCount after := by
  simp [opCount]

theorem opCount_cons (entry : Entry) (entries : List Entry) :
    opCount (entry :: entries) = opCount [entry] + opCount entries :=
  opCount_append [entry] entries

theorem opCount_mark {entry : Entry} (h : entry.op = none) : opCount [entry] = 0 := by
  simp [opCount, Entry.isMark, h]

theorem opCount_op {entry : Entry} {op : Op} (h : entry.op = some op) : opCount [entry] = 1 := by
  simp [opCount, Entry.isMark, h]

theorem bindings_cons (position : Nat) (entry : Entry) (rest : List Entry) :
    bindings position (entry :: rest) =
      entry.label.toList.map (·, position) ++ bindings (position + opCount [entry]) rest := by
  rw [bindings]
  cases h : entry.op with
  | none => simp [Entry.isMark, h, opCount_mark h]
  | some op => simp [Entry.isMark, h, opCount_op h]

theorem bindings_append (position : Nat) (before after : List Entry) :
    bindings position (before ++ after) =
      bindings position before ++ bindings (position + opCount before) after := by
  induction before generalizing position with
  | nil => rfl
  | cons entry rest ih =>
    rw [List.cons_append, bindings_cons, bindings_cons, ih, opCount_cons entry rest,
      List.append_assoc, Nat.add_assoc]

/-- **A label is bound to the number of operations before an entry that has it.** -/
theorem mem_bindings {label : String} {place : Nat} (entries : List Entry) (position : Nat) :
    (label, place) ∈ bindings position entries ↔
      ∃ before entry after, entries = before ++ entry :: after ∧ entry.label = some label ∧
        place = position + opCount before := by
  induction entries generalizing position with
  | nil => simp [bindings]
  | cons first rest ih =>
    rw [bindings_cons, List.mem_append, ih]
    constructor
    · rintro (here | ⟨before, entry, after, rfl, hlabel, rfl⟩)
      · obtain ⟨name, hname, heq⟩ := List.mem_map.1 here
        cases heq
        exact ⟨[], first, rest, rfl, Option.mem_toList.1 hname, rfl⟩
      · exact ⟨first :: before, entry, after, rfl, hlabel, by
          rw [opCount_cons first before, Nat.add_assoc]⟩
    · rintro ⟨before, entry, after, hsplit, hlabel, rfl⟩
      cases before with
      | nil =>
        obtain ⟨rfl, rfl⟩ : first = entry ∧ rest = after := by simpa using hsplit
        exact Or.inl (by simp [hlabel])
      | cons head before =>
        obtain ⟨rfl, rfl⟩ : first = head ∧ rest = before ++ entry :: after := by
          simpa using hsplit
        exact Or.inr ⟨before, entry, after, rfl, hlabel, by
          rw [opCount_cons first before, Nat.add_assoc]⟩

/-- No label is bound before the start or after the end of the walk. -/
theorem place_le_of_mem_bindings {label : String} {place position : Nat} {entries : List Entry}
    (h : (label, place) ∈ bindings position entries) :
    position ≤ place ∧ place ≤ position + opCount entries := by
  obtain ⟨before, entry, after, rfl, _, rfl⟩ := (mem_bindings entries position).1 h
  rw [opCount_append]
  omega

/-- The index of the first entry that has a label. -/
def findLabel (entries : List Entry) (label : String) : Option Nat :=
  entries.findIdx? fun entry => entry.label == some label

theorem lookup_bindings (label : String) (entries : List Entry) (position : Nat) :
    (bindings position entries).lookup label =
      (findLabel entries label).map fun index => position + opCount (entries.take index) := by
  induction entries generalizing position with
  | nil => rfl
  | cons entry rest ih =>
    rw [bindings_cons, List.lookup_append, ih]
    unfold findLabel
    rw [List.findIdx?_cons]
    by_cases hlabel : entry.label = some label
    · simp [hlabel]
    · have hnone : (entry.label.toList.map (·, position)).lookup label = none := by
        rw [List.lookup_eq_none_iff]
        intro binding hmem
        obtain ⟨name, hname, rfl⟩ := List.mem_map.1 hmem
        have : label ≠ name := by
          rintro rfl
          exact hlabel (Option.mem_toList.1 hname)
        simpa using this
      have hskip : (entry.label == some label) = false := by simpa using hlabel
      rw [hnone, hskip, Option.none_or]
      cases rest.findIdx? fun entry => entry.label == some label with
      | none => rfl
      | some index =>
        simp only [Option.map_some, Bool.false_eq_true, if_false, List.take_succ_cons]
        rw [opCount_cons entry (rest.take index), Nat.add_assoc]

end Fold

namespace LabelTable

/-- Bindings that are already there are kept, new ones are put at the end: for a look-up the
bindings might as well have been appended. -/
theorem lookup_extend {table result : LabelTable} {bindings : List (String × Nat)}
    (h : table.extend bindings = .ok result) (label : String) :
    result.lookup label = (table ++ bindings).lookup label := by
  fun_induction extend table bindings with
  | case1 table => cases h; simp
  | case2 table name place rest _ ih =>
    rw [ih h, List.append_assoc, List.singleton_append]
  | case3 table name place rest hbound ih =>
    rw [ih h]
    simp only [List.lookup_append, List.lookup_cons]
    split
    · rename_i heq
      rw [eq_of_beq heq, hbound]
      rfl
    · rfl
  | case4 => cases h

/-- **Every binding that went into a table is found there.** -/
theorem lookup_extend_of_mem {table result : LabelTable} {bindings : List (String × Nat)}
    (h : table.extend bindings = .ok result) {label : String} {place : Nat}
    (hmem : (label, place) ∈ bindings) : result.lookup label = some place := by
  fun_induction extend table bindings with
  | case1 => cases hmem
  | case2 table name position rest hnone ih =>
    rcases List.mem_cons.1 hmem with heq | hmem
    · cases heq
      rw [lookup_extend h]
      simp [List.lookup_append, hnone]
    · exact ih h hmem
  | case3 table name position rest hbound ih =>
    rcases List.mem_cons.1 hmem with heq | hmem
    · cases heq
      rw [lookup_extend h]
      simp [List.lookup_append, hbound]
    · exact ih h hmem
  | case4 => cases h

/-- **Nothing else is found in a table.** -/
theorem mem_of_lookup_extend {result : LabelTable} {bindings : List (String × Nat)}
    (h : LabelTable.extend [] bindings = .ok result) {label : String} {place : Nat}
    (hfound : result.lookup label = some place) : (label, place) ∈ bindings := by
  rw [lookup_extend h, List.nil_append, List.lookup_eq_some_iff] at hfound
  obtain ⟨before, after, rfl, _⟩ := hfound
  simp

/-- Bindings without a repeated label are a table as they stand. -/
theorem extend_of_nodup (table : LabelTable) (bindings : List (String × Nat))
    (h : ((table ++ bindings).map Prod.fst).Nodup) :
    table.extend bindings = .ok (table ++ bindings) := by
  induction bindings generalizing table with
  | nil => simp [extend]
  | cons binding rest ih =>
    obtain ⟨label, place⟩ := binding
    have hnone : table.lookup label = none := by
      rw [List.lookup_eq_none_iff]
      intro earlier hmem
      rw [List.map_append, List.nodup_append] at h
      have := h.2.2 earlier.1 (List.mem_map_of_mem hmem) label (by simp)
      simpa using this.symm
    rw [List.append_cons] at h ⊢
    rw [extend, hnone]
    exact ih (table ++ [(label, place)]) h

/-- A table binds no label twice. -/
theorem nodup_extend {table result : LabelTable} {bindings : List (String × Nat)}
    (h : table.extend bindings = .ok result) (hnodup : (table.map Prod.fst).Nodup) :
    (result.map Prod.fst).Nodup := by
  fun_induction extend table bindings with
  | case1 => cases h; exact hnodup
  | case2 table name place rest hnone ih =>
    refine ih h ?_
    rw [List.map_append, List.nodup_append]
    refine ⟨hnodup, by simp, ?_⟩
    intro earlier hearlier label hlabel
    obtain ⟨binding, hmem, rfl⟩ := List.mem_map.1 hearlier
    have hne := List.lookup_eq_none_iff.1 hnone binding hmem
    obtain rfl : label = name := by simpa using hlabel
    rintro rfl
    simp at hne
  | case3 table name place rest _ ih => exact ih h hnodup
  | case4 => cases h

/-- In a table that binds no label twice, what stands there is what is found. -/
theorem mem_iff_lookup {table : LabelTable} (hnodup : (table.map Prod.fst).Nodup)
    {label : String} {place : Nat} :
    (label, place) ∈ table ↔ table.lookup label = some place := by
  constructor
  · intro hmem
    rw [List.lookup_eq_some_iff]
    obtain ⟨before, after, rfl⟩ := List.append_of_mem hmem
    refine ⟨before, after, rfl, ?_⟩
    intro earlier hearlier
    rw [List.map_append, List.nodup_append] at hnodup
    have := hnodup.2.2 earlier.1 (List.mem_map_of_mem hearlier) label (by simp)
    simpa using this.symm
  · intro hfound
    obtain ⟨before, after, rfl, _⟩ := List.lookup_eq_some_iff.1 hfound
    simp

end LabelTable

end Clerk
