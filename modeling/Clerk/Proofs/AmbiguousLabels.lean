import Clerk.Proofs.Building
import Clerk.Proofs.LabelTable
import Mathlib.Data.List.Induction

/-!
# Why a program is refused

A label may be repeated as long as no operation stands between its places.  Otherwise it is
ambiguous and no program is made.  A builder refuses a name that cannot be written in a listing
before it looks at anything else.

* `Fold.Ambiguous`, `Fold.FirstAmbiguous` — the entry at an index repeats a label, and is the first
  to do so;
* `LabelTable.extend_append` — bindings are added one list after the other;
* `Fold.extend_bindings_cases` — a table is made unless there is an ambiguous label;
* `Program.ofEntries_error_iff` — so that label is all that entries are refused for;
* `Builder.FirstBad`, `Builder.build_badLabel_iff` — the first name that is no label, and when it is
  the error;
* `Program.refused_iff` — when programs and builders are refused, and with which error.
-/

set_option autoImplicit false

namespace Clerk

/-! ## Ambiguous labels -/

namespace Fold

/-- The label of the entry at an index. -/
def labelAt (entries : List Entry) (index : Nat) : Option String :=
  entries[index]?.bind Entry.label

/-- The number of operations before an index. -/
def opsBefore (entries : List Entry) (index : Nat) : Nat :=
  opCount (entries.take index)

/-- The entry at an index has a label that an earlier entry has too, and an operation stands
between the two. -/
def Ambiguous (entries : List Entry) (index : Nat) (label : String) : Prop :=
  labelAt entries index = some label ∧
    ∃ earlier < index, labelAt entries earlier = some label ∧
      opsBefore entries earlier ≠ opsBefore entries index

/-- The entry at an index is the first whose label is ambiguous. -/
def FirstAmbiguous (entries : List Entry) (index : Nat) (label : String) : Prop :=
  Ambiguous entries index label ∧ ∀ earlier < index, ∀ other, ¬ Ambiguous entries earlier other

variable {entries : List Entry} {entry : Entry} {index : Nat} {label : String}

theorem lt_length_of_labelAt (h : labelAt entries index = some label) :
    index < entries.length := by
  obtain ⟨_, hget, _⟩ := Option.bind_eq_some_iff.1 h
  exact (List.getElem?_eq_some_iff.1 hget).1

theorem labelAt_append_left (h : index < entries.length) (after : List Entry) :
    labelAt (entries ++ after) index = labelAt entries index := by
  unfold labelAt
  rw [List.getElem?_append_left h]

theorem opsBefore_append_left (h : index ≤ entries.length) (after : List Entry) :
    opsBefore (entries ++ after) index = opsBefore entries index := by
  unfold opsBefore
  rw [List.take_append_of_le_length h]

theorem mem_bindings_iff_labelAt {place : Nat} :
    (label, place) ∈ bindings 0 entries ↔
      ∃ index, labelAt entries index = some label ∧ opsBefore entries index = place := by
  rw [mem_bindings]
  constructor
  · rintro ⟨before, entry, after, rfl, hlabel, rfl⟩
    refine ⟨before.length, ?_, ?_⟩
    · simp [labelAt, hlabel]
    · simp [opsBefore]
  · rintro ⟨index, hlabel, rfl⟩
    obtain ⟨entry, hget, hlabel⟩ := Option.bind_eq_some_iff.1 hlabel
    obtain ⟨hlt, rfl⟩ := List.getElem?_eq_some_iff.1 hget
    exact ⟨entries.take index, entries[index], entries.drop (index + 1), by simp, hlabel,
      (Nat.zero_add _).symm⟩

/-- One more entry is ambiguous if its label is bound to another place than the one reached. -/
theorem ambiguous_concat :
    Ambiguous (entries ++ [entry]) index label ↔
      Ambiguous entries index label ∨
        (index = entries.length ∧ entry.label = some label ∧
          ∃ place, (label, place) ∈ bindings 0 entries ∧ place ≠ opCount entries) := by
  have hlast : labelAt (entries ++ [entry]) entries.length = entry.label := by
    simp [labelAt]
  have hall : opsBefore (entries ++ [entry]) entries.length = opCount entries := by
    rw [opsBefore_append_left (Nat.le_refl _), opsBefore, List.take_length]
  constructor
  · rintro ⟨hlabel, earlier, hlt, hsame, hplaces⟩
    have hindex := lt_length_of_labelAt hlabel
    rw [List.length_append, List.length_singleton] at hindex
    rw [labelAt_append_left (by omega)] at hsame
    rw [opsBefore_append_left (by omega)] at hplaces
    rcases Nat.lt_or_eq_of_le (Nat.le_of_lt_succ hindex) with hbefore | rfl
    · rw [labelAt_append_left hbefore] at hlabel
      rw [opsBefore_append_left (Nat.le_of_lt hbefore)] at hplaces
      exact Or.inl ⟨hlabel, earlier, hlt, hsame, hplaces⟩
    · rw [hlast] at hlabel
      rw [hall] at hplaces
      exact Or.inr ⟨rfl, hlabel, _, mem_bindings_iff_labelAt.2 ⟨earlier, hsame, rfl⟩, hplaces⟩
  · rintro (⟨hlabel, earlier, hlt, hsame, hplaces⟩ | ⟨rfl, hlabel, place, hmem, hplace⟩)
    · have hindex := lt_length_of_labelAt hlabel
      refine ⟨?_, earlier, hlt, ?_, ?_⟩
      · rw [labelAt_append_left hindex, hlabel]
      · rw [labelAt_append_left (by omega), hsame]
      · rw [opsBefore_append_left (by omega), opsBefore_append_left (by omega)]
        exact hplaces
    · obtain ⟨earlier, hsame, rfl⟩ := mem_bindings_iff_labelAt.1 hmem
      have hearlier := lt_length_of_labelAt hsame
      refine ⟨hlast.trans hlabel, earlier, hearlier, ?_, ?_⟩
      · rw [labelAt_append_left hearlier, hsame]
      · rw [hall, opsBefore_append_left (Nat.le_of_lt hearlier)]
        exact hplace

/-- What comes first stays first when an entry is added. -/
theorem FirstAmbiguous.concat (h : FirstAmbiguous entries index label) (entry : Entry) :
    FirstAmbiguous (entries ++ [entry]) index label := by
  have hindex := lt_length_of_labelAt h.1.1
  refine ⟨ambiguous_concat.2 (Or.inl h.1), fun earlier hlt other hother => ?_⟩
  rcases ambiguous_concat.1 hother with hother | ⟨rfl, -⟩
  · exact h.2 earlier hlt other hother
  · omega

theorem FirstAmbiguous.unique {index' : Nat} {label' : String}
    (h : FirstAmbiguous entries index label) (h' : FirstAmbiguous entries index' label') :
    index = index' ∧ label = label' := by
  have hindex : index = index' := by
    rcases Nat.lt_trichotomy index index' with hlt | heq | hgt
    · exact absurd h.1 (h'.2 index hlt label)
    · exact heq
    · exact absurd h'.1 (h.2 index' hgt label')
  subst hindex
  exact ⟨rfl, Option.some.inj (h.1.1.symm.trans h'.1.1)⟩

/-- Two entries with one label and different places make the later one ambiguous. -/
theorem exists_ambiguous_iff :
    (∃ index label, Ambiguous entries index label) ↔
      ∃ first second label, labelAt entries first = some label ∧
        labelAt entries second = some label ∧ opsBefore entries first ≠ opsBefore entries second := by
  constructor
  · rintro ⟨index, label, hlabel, earlier, -, hsame, hplaces⟩
    exact ⟨earlier, index, label, hsame, hlabel, hplaces⟩
  · rintro ⟨first, second, label, hfirst, hsecond, hplaces⟩
    rcases Nat.lt_trichotomy first second with hlt | rfl | hgt
    · exact ⟨second, label, hsecond, first, hlt, hfirst, hplaces⟩
    · exact absurd rfl hplaces
    · exact ⟨first, label, hfirst, second, hgt, hsecond, Ne.symm hplaces⟩

end Fold

/-! ## Tables -/

theorem LabelTable.extend_append (table : LabelTable) (before after : List (String × Nat)) :
    table.extend (before ++ after) = (table.extend before).bind fun next => next.extend after := by
  fun_induction extend table before with
  | case1 table => rfl
  | case2 table label position rest hnone ih =>
    rw [← ih, List.cons_append, extend, hnone]
  | case3 table label rest position hbound ih =>
    rw [← ih, List.cons_append, extend, hbound]
    simp only [if_pos]
  | case4 table label position rest bound hbound hne =>
    rw [List.cons_append, extend, hbound]
    simp only [if_neg hne]
    rfl

namespace Fold

/-- The table after one more entry. -/
theorem extend_bindings_concat (entries : List Entry) (entry : Entry) :
    LabelTable.extend [] (bindings 0 (entries ++ [entry])) =
      (LabelTable.extend [] (bindings 0 entries)).bind fun table =>
        table.extend (entry.label.toList.map (·, opCount entries)) := by
  have hone : bindings (opCount entries) [entry] = entry.label.toList.map (·, opCount entries) := by
    rw [bindings_cons, bindings, List.append_nil]
  rw [bindings_append, Nat.zero_add, hone, LabelTable.extend_append]

/-- One more entry is taken unless its label is bound to another place than the one reached. -/
theorem extend_label_cases {entries : List Entry} {table : LabelTable}
    (htable : LabelTable.extend [] (bindings 0 entries) = .ok table) (entry : Entry) :
    (∃ next, table.extend (entry.label.toList.map (·, opCount entries)) = .ok next ∧
      ∀ label place, entry.label = some label → (label, place) ∈ bindings 0 entries →
        place = opCount entries) ∨
    ∃ label place, entry.label = some label ∧ (label, place) ∈ bindings 0 entries ∧
      place ≠ opCount entries ∧
        table.extend (entry.label.toList.map (·, opCount entries)) =
          .error (.duplicateLabel label) := by
  cases hlabel : entry.label with
  | none =>
    refine Or.inl ⟨table, rfl, ?_⟩
    rintro label place ⟨⟩
  | some label =>
    have hbound : ∀ {place}, (label, place) ∈ bindings 0 entries →
        table.lookup label = some place := LabelTable.lookup_extend_of_mem htable
    cases hlookup : table.lookup label with
    | none =>
      refine Or.inl ⟨table ++ [(label, opCount entries)], by simp [LabelTable.extend, hlookup], ?_⟩
      rintro _ place ⟨⟩ hmem
      rw [hbound hmem] at hlookup
      cases hlookup
    | some place =>
      by_cases hplace : place = opCount entries
      · refine Or.inl ⟨table, by simp [LabelTable.extend, hlookup, hplace], ?_⟩
        rintro _ place' ⟨⟩ hmem
        rw [hbound hmem] at hlookup
        cases hlookup
        exact hplace
      · exact Or.inr ⟨label, place, rfl, LabelTable.mem_of_lookup_extend htable hlookup, hplace,
          by simp [LabelTable.extend, hlookup, hplace]⟩

/-- **A table is made unless a label is ambiguous**, and the first such label is the error. -/
theorem extend_bindings_cases (entries : List Entry) :
    (∃ table, LabelTable.extend [] (bindings 0 entries) = .ok table ∧
      ∀ index label, ¬ Ambiguous entries index label) ∨
    ∃ index label, FirstAmbiguous entries index label ∧
      LabelTable.extend [] (bindings 0 entries) = .error (.duplicateLabel label) := by
  induction entries using List.reverseRecOn with
  | nil =>
    refine Or.inl ⟨[], rfl, ?_⟩
    rintro index label ⟨hlabel, -⟩
    exact absurd (lt_length_of_labelAt hlabel) (Nat.not_lt_zero _)
  | append_singleton entries entry ih =>
    rw [extend_bindings_concat]
    rcases ih with ⟨table, htable, hclear⟩ | ⟨index, label, hfirst, herror⟩
    · -- the entries so far are clear, so it all depends on the last one
      rw [htable]
      rcases extend_label_cases htable entry with
        ⟨next, hnext, hplace⟩ | ⟨label, place, hlabel, hmem, hne, herror⟩
      · refine Or.inl ⟨next, hnext, fun index label hambiguous => ?_⟩
        rcases ambiguous_concat.1 hambiguous with hearlier | ⟨-, hlabel, place, hmem, hne⟩
        · exact hclear index label hearlier
        · exact hne (hplace label place hlabel hmem)
      · refine Or.inr ⟨entries.length, label, ⟨?_, fun earlier hlt other hother => ?_⟩, herror⟩
        · exact ambiguous_concat.2 (Or.inr ⟨rfl, hlabel, place, hmem, hne⟩)
        · rcases ambiguous_concat.1 hother with hother | ⟨rfl, -⟩
          · exact hclear earlier other hother
          · omega
    · rw [herror]
      exact Or.inr ⟨index, label, hfirst.concat entry, rfl⟩

end Fold

open Fold

namespace Program

/-- **A program is refused for its first ambiguous label and for nothing else.** -/
theorem ofEntries_error_iff {entries : List Entry} {error : Error} :
    ofEntries entries = .error error ↔
      ∃ index label, FirstAmbiguous entries index label ∧ error = .duplicateLabel label := by
  unfold ofEntries
  rcases extend_bindings_cases entries with ⟨table, htable, hclear⟩ | ⟨index, label, hfirst, herror⟩
  · rw [htable]
    constructor
    · rintro ⟨⟩
    · rintro ⟨index, label, hfirst, -⟩
      exact absurd hfirst.1 (hclear index label)
  · rw [herror]
    constructor
    · rintro ⟨⟩
      exact ⟨index, label, hfirst, rfl⟩
    · rintro ⟨index', label', hfirst', rfl⟩
      rw [(hfirst.unique hfirst').2]
      rfl

theorem refused_iff_ambiguous {entries : List Entry} :
    (∃ error, ofEntries entries = .error error) ↔
      ∃ index label, Ambiguous entries index label := by
  constructor
  · rintro ⟨error, herror⟩
    obtain ⟨index, label, hfirst, -⟩ := ofEntries_error_iff.1 herror
    exact ⟨index, label, hfirst.1⟩
  · rintro ⟨index, label, hambiguous⟩
    rcases extend_bindings_cases entries with ⟨table, -, hclear⟩ | ⟨index', label', hfirst, -⟩
    · exact absurd hambiguous (hclear index label)
    · exact ⟨_, ofEntries_error_iff.2 ⟨index', label', hfirst, rfl⟩⟩

end Program

/-! ## Names that are no labels -/

/-- The first name of an entry that is no label: its own, or else the target of its jump. -/
def Entry.FirstBad (entry : Entry) (name : String) : Prop :=
  Label.isValid name = false ∧
    (entry.label = some name ∨
      (∀ label, entry.label = some label → Label.isValid label = true) ∧
        entry.op.bind Op.target? = some name)

theorem Entry.find?_names {entry : Entry} {name : String} :
    (entry.names.find? fun other => !Label.isValid other) = some name ↔ entry.FirstBad name := by
  unfold Entry.names Entry.FirstBad
  rw [List.find?_append]
  cases entry.label with
  | none => cases entry.op.bind Op.target? <;> grind
  | some label => cases entry.op.bind Op.target? <;> grind

namespace Builder

/-- The first name among entries that is no label. -/
def FirstBad (entries : List Entry) (name : String) : Prop :=
  ∃ before entry after, entries = before ++ entry :: after ∧
    (∀ earlier ∈ before, earlier.Named) ∧ entry.FirstBad name

theorem badName?_eq_some_iff {builder : Builder} {name : String} :
    builder.badName? = some name ↔ FirstBad builder.entries.toList name := by
  have hnamed : ∀ entry : Entry,
      (entry.names.find? fun other => !Label.isValid other) = none ↔ entry.Named := by
    intro entry
    rw [List.find?_eq_none, Entry.Named]
    simp
  unfold badName? FirstBad
  rw [List.find?_flatMap, List.findSome?_eq_some_iff]
  simp only [Entry.find?_names, hnamed, and_comm]

theorem exists_firstBad_iff {builder : Builder} :
    (∃ name, FirstBad builder.entries.toList name) ↔
      ∃ entry ∈ builder.entries.toList, ¬ entry.Named := by
  constructor
  · rintro ⟨name, before, entry, after, hsplit, -, hinvalid, hname⟩
    refine ⟨entry, by simp [hsplit], fun hnamed => ?_⟩
    have hmem : name ∈ entry.names := by
      unfold Entry.names
      rcases hname with hlabel | ⟨-, htarget⟩
      · simp [hlabel]
      · simp [htarget]
    rw [hnamed name hmem] at hinvalid
    cases hinvalid
  · rintro ⟨entry, hmem, hbad⟩
    cases hfound : builder.badName? with
    | some name => exact ⟨name, badName?_eq_some_iff.1 hfound⟩
    | none =>
      refine absurd (fun name hname => ?_) hbad
      have hvalid := List.find?_eq_none.1 hfound name (List.mem_flatMap.2 ⟨entry, hmem, hname⟩)
      simpa using hvalid

/-- A builder refuses its first name that is no label, whatever else is wrong. -/
theorem build_badLabel_iff {builder : Builder} {name : String} :
    builder.build = .error (.reading (.badLabel name)) ↔
      FirstBad builder.entries.toList name := by
  rw [← badName?_eq_some_iff]
  unfold build
  cases builder.badName? with
  | some other => simp
  | none =>
    -- an ambiguous label is another error
    constructor
    · intro herror
      obtain ⟨_, _, -, ⟨⟩⟩ := Program.ofEntries_error_iff.1 herror
    · rintro ⟨⟩

end Builder

/-- **Programs are refused for ambiguous labels, builders for names that are no labels first.**
Entries make no program exactly if one label stands at two entries with different numbers of
operations before them; the error names the label of the earliest entry that disagrees with one
before it.  A builder with a name that is no label refuses the first such name.  Any other builder
makes what its entries make. -/
theorem Program.refused_iff :
    (∀ entries : List Entry,
      ((∃ error, ofEntries entries = .error error) ↔
        ∃ first second label, labelAt entries first = some label ∧
          labelAt entries second = some label ∧
            opsBefore entries first ≠ opsBefore entries second) ∧
      ∀ error, ofEntries entries = .error error ↔
        ∃ index label, FirstAmbiguous entries index label ∧ error = .duplicateLabel label) ∧
    ∀ builder : Builder,
      ((∃ name, builder.build = .error (.reading (.badLabel name))) ↔
        ∃ entry ∈ builder.entries.toList, ¬ entry.Named) ∧
      (∀ name, builder.build = .error (.reading (.badLabel name)) ↔
        Builder.FirstBad builder.entries.toList name) ∧
      ((∀ entry ∈ builder.entries.toList, entry.Named) →
        builder.build = ofEntries builder.entries.toList) := by
  refine ⟨fun entries => ⟨?_, fun error => ofEntries_error_iff⟩, fun builder =>
    ⟨?_, fun name => Builder.build_badLabel_iff, Builder.build_of_named⟩⟩
  · rw [refused_iff_ambiguous, exists_ambiguous_iff]
  · simp only [Builder.build_badLabel_iff, Builder.exists_firstBad_iff]

/-- A label that is repeated in one place and then comes back in another. -/
def Fold.comingBack : List Entry :=
  [Entry.mark "a", Entry.mark "b", Entry.mark "a", Entry.ofOp .inbox, Entry.mark "c",
    ⟨some (.jump none "a"), some "b", none⟩, Entry.mark "a"]

theorem Program.refused_iff_comingBack :
    (∃ index, FirstAmbiguous comingBack index "b") ∧
      (∀ entry ∈ (Builder.ofEntries comingBack).entries.toList, entry.Named) ∧
        (Builder.ofEntries comingBack).build = .error (.duplicateLabel "b") := by
  have herror : ofEntries comingBack = .error (.duplicateLabel "b") := by decide +kernel
  have hnamed : ∀ entry ∈ (Builder.ofEntries comingBack).entries.toList, entry.Named := by
    rw [Builder.entries_ofEntries]
    unfold Entry.Named
    decide +kernel
  obtain ⟨index, label, hfirst, heq⟩ := ((refused_iff.1 comingBack).2 _).1 herror
  cases heq
  refine ⟨⟨index, hfirst⟩, hnamed, ?_⟩
  rw [(refused_iff.2 (Builder.ofEntries comingBack)).2.2 hnamed, Builder.entries_ofEntries, herror]

end Clerk
