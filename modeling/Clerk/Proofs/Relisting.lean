import Clerk.Proofs.Building
import Clerk.Proofs.Jumps
import Clerk.Proofs.WellFormed
import Clerk.Puzzle
import Mathlib.Data.List.Nodup

/-!
# Reading a program back from its listing

The listing of a program leaves out comments and the labels that gave way to others, and reading
it folds the rest once more.  What comes out runs like the program itself.

* `Program.ofEntries_relisted` — the entries of a listing make a program again;
* `Program.sameJumps_reread` — its jumps go where those of the program go;
* `Program.Made` — programs from listings and from builders;
* `Program.exists_reread_runs_alike` — the two run alike;
* `Program.listing_stable_iff` — when the listing of what is read back is the same text.
-/

set_option autoImplicit false

namespace Clerk

open Fold Listing

/-! ## Folding the entries of a listing -/

theorem Op.retarget_eq_self_iff {rename : String → String} {op : Op} :
    op.retarget rename = op ↔ ∀ target ∈ op.target?, rename target = target := by
  cases op with
  | jump test target => simp [Op.retarget, Op.target?]
  | inbox => simp [Op.retarget, Op.target?]
  | outbox => simp [Op.retarget, Op.target?]
  | cell kind address => simp [Op.retarget, Op.target?]

/-- The instruction without its comment. -/
def Instruction.bare (instruction : Instruction) : Instruction :=
  { instruction with comment := none }

namespace Fold

theorem settle_relisted (instructions : List Instruction) (labels : List String) :
    settle none (instructions.flatMap Instruction.relisted ++ labels.map Entry.mark) =
      instructions.map Instruction.bare := by
  induction instructions with
  | nil =>
    have hmarks : ∀ carried, settle carried (labels.map Entry.mark) = [] := by
      induction labels with
      | nil => exact fun _ => rfl
      | cons label rest ih => exact fun _ => ih _
    exact hmarks none
  | cons instruction rest ih =>
    rw [List.flatMap_cons, List.append_assoc, Instruction.relisted, List.map_cons, ← ih]
    cases hlabel : instruction.label <;>
      simp [settle, Entry.mark, Entry.ofOp, Entry.handOn, Instruction.bare, hlabel]

theorem comment_settle {entries : List Entry} (h : ∀ entry ∈ entries, entry.comment = none)
    (carried : Option String) :
    ∀ instruction ∈ settle carried entries, instruction.comment = none := by
  induction entries generalizing carried with
  | nil => simp [settle]
  | cons entry rest ih =>
    have hrest := ih fun other hmem => h other (List.mem_cons_of_mem _ hmem)
    intro instruction hmem
    rw [settle] at hmem
    split at hmem
    · exact hrest _ instruction hmem
    · rcases List.mem_cons.1 hmem with rfl | hmem
      · exact h entry (by simp)
      · exact hrest _ instruction hmem

theorem leftOver_marks (carried : Option String) (labels : List String) :
    leftOver carried (labels.map Entry.mark) = labels.getLast?.or carried := by
  induction labels generalizing carried with
  | nil => simp [leftOver]
  | cons label rest ih =>
    have hstep : leftOver carried ((label :: rest).map Entry.mark) =
        leftOver (some label) (rest.map Entry.mark) := rfl
    rw [hstep, ih, List.getLast?_cons]
    cases rest.getLast? <;> rfl

theorem leftOver_relisted (instructions : List Instruction) (labels : List String) :
    leftOver none (instructions.flatMap Instruction.relisted ++ labels.map Entry.mark) =
      labels.getLast? := by
  have hbody : leftOver none (instructions.flatMap Instruction.relisted) = none := by
    induction instructions with
    | nil => rfl
    | cons instruction rest ih =>
      rw [leftOver, List.flatMap_cons, List.foldl_append, Instruction.relisted, List.foldl_append]
      exact ih
  rw [leftOver, List.foldl_append]
  rw [leftOver] at hbody
  rw [hbody]
  simpa [leftOver] using leftOver_marks none labels

theorem opCount_relisted (instructions : List Instruction) :
    opCount (instructions.flatMap Instruction.relisted) = instructions.length := by
  have hsettle := settle_relisted instructions []
  rw [List.map_nil, List.append_nil] at hsettle
  rw [← length_settle none, hsettle, List.length_map]

/-- The labels of instructions, each with its place. -/
def labelPlaces (position : Nat) : List Instruction → List (String × Nat)
  | [] => []
  | instruction :: rest =>
    instruction.label.toList.map (·, position) ++ labelPlaces (position + 1) rest

theorem mem_labelPlaces {label : String} {place : Nat} (instructions : List Instruction)
    (position : Nat) :
    (label, place) ∈ labelPlaces position instructions ↔
      ∃ index instruction, instructions[index]? = some instruction ∧
        instruction.label = some label ∧ place = position + index := by
  induction instructions generalizing position with
  | nil => simp [labelPlaces]
  | cons first rest ih =>
    rw [labelPlaces, List.mem_append, ih]
    constructor
    · rintro (here | ⟨index, instruction, hget, hlabel, rfl⟩)
      · obtain ⟨name, hname, heq⟩ := List.mem_map.1 here
        cases heq
        exact ⟨0, first, rfl, Option.mem_toList.1 hname, rfl⟩
      · exact ⟨index + 1, instruction, hget, hlabel, by omega⟩
    · rintro ⟨index, instruction, hget, hlabel, rfl⟩
      cases index with
      | zero =>
        cases hget
        exact Or.inl (by simp [hlabel])
      | succ index => exact Or.inr ⟨index, instruction, hget, hlabel, by omega⟩

theorem place_lt_of_mem_labelPlaces {label : String} {place position : Nat}
    {instructions : List Instruction} (h : (label, place) ∈ labelPlaces position instructions) :
    place < position + instructions.length := by
  obtain ⟨index, _, hget, _, rfl⟩ := (mem_labelPlaces _ _).1 h
  have := (List.getElem?_eq_some_iff.1 hget).1
  omega

theorem bindings_relisted (position : Nat) (instructions : List Instruction)
    (labels : List String) :
    bindings position (instructions.flatMap Instruction.relisted ++ labels.map Entry.mark) =
      labelPlaces position instructions ++ labels.map (·, position + instructions.length) := by
  have hmarks : ∀ place, bindings place (labels.map Entry.mark) = labels.map (·, place) := by
    intro place
    induction labels with
    | nil => rfl
    | cons label rest ih =>
      rw [List.map_cons, List.map_cons, ← ih]
      rfl
  have hbody : bindings position (instructions.flatMap Instruction.relisted) =
      labelPlaces position instructions := by
    induction instructions generalizing position with
    | nil => rfl
    | cons instruction rest ih =>
      have hone : opCount instruction.relisted = 1 := by
        simpa using opCount_relisted [instruction]
      rw [List.flatMap_cons, bindings_append, labelPlaces, hone, ih]
      refine congrArg (· ++ _) ?_
      rw [Instruction.relisted]
      cases instruction.label <;> rfl
  rw [bindings_append, hbody, opCount_relisted, hmarks]

theorem nodup_labelPlaces (position : Nat) (instructions : List Instruction) :
    (labelPlaces position instructions).Nodup := by
  induction instructions generalizing position with
  | nil => exact List.nodup_nil
  | cons first rest ih =>
    rw [labelPlaces, List.nodup_append]
    refine ⟨by cases first.label <;> simp, ih _, ?_⟩
    rintro here hhere ⟨label, place⟩ hlater rfl
    obtain ⟨index, _, _, _, rfl⟩ := (mem_labelPlaces rest _).1 hlater
    obtain ⟨name, _, heq⟩ := List.mem_map.1 hhere
    have : position = position + 1 + index := congrArg Prod.snd heq
    omega

end Fold

namespace Program

variable {entries : List Entry} {p q : Program}

theorem nodup_labels (h : ofEntries entries = .ok p) : (p.labels.map Prod.fst).Nodup :=
  LabelTable.nodup_extend (ofEntries_ok h).1 List.nodup_nil

theorem mem_endLabels (h : ofEntries entries = .ok p) {label : String} :
    label ∈ p.endLabels ↔ p.resolve label = some p.size := by
  rw [resolve, ← LabelTable.mem_iff_lookup (nodup_labels h)]
  simp [endLabels]

theorem nodup_endLabels (h : ofEntries entries = .ok p) : p.endLabels.Nodup :=
  (List.filter_sublist.map Prod.fst).nodup (nodup_labels h)

theorem bindings_relisted (p : Program) :
    bindings 0 p.relisted =
      labelPlaces 0 p.instructions.toList ++ p.endLabels.map (·, p.size) := by
  rw [relisted, Fold.bindings_relisted, Nat.zero_add, Array.length_toList]
  rfl

theorem mem_bindings_relisted {label : String} {place : Nat} :
    (label, place) ∈ bindings 0 p.relisted ↔
      (∃ instruction, p.instructions[place]? = some instruction ∧
        instruction.label = some label) ∨ (label ∈ p.endLabels ∧ place = p.size) := by
  rw [bindings_relisted, List.mem_append, mem_labelPlaces]
  simp only [Nat.zero_add, Array.getElem?_toList]
  constructor
  · rintro (⟨_, instruction, hget, hlabel, rfl⟩ | hend)
    · exact Or.inl ⟨instruction, hget, hlabel⟩
    · obtain ⟨name, hname, heq⟩ := List.mem_map.1 hend
      cases heq
      exact Or.inr ⟨hname, rfl⟩
  · rintro (⟨instruction, hget, hlabel⟩ | ⟨hname, rfl⟩)
    · exact Or.inl ⟨place, instruction, hget, hlabel, rfl⟩
    · exact Or.inr (List.mem_map_of_mem hname)

/-- The listing binds labels as the program does. -/
theorem resolve_of_mem_relisted (h : ofEntries entries = .ok p) {label : String} {place : Nat}
    (hmem : (label, place) ∈ bindings 0 p.relisted) : p.resolve label = some place := by
  rcases mem_bindings_relisted.1 hmem with ⟨instruction, hget, hlabel⟩ | ⟨hname, rfl⟩
  · exact resolve_of_label h hget hlabel
  · exact (mem_endLabels h).1 hname

/-- **The entries of a listing make a program**, and no label is written twice. -/
theorem ofEntries_relisted (h : ofEntries entries = .ok p) :
    ∃ q, ofEntries p.relisted = .ok q ∧ q.labels = bindings 0 p.relisted := by
  have hpairs : (bindings 0 p.relisted).Nodup := by
    rw [bindings_relisted, List.nodup_append]
    refine ⟨nodup_labelPlaces _ _, (nodup_endLabels h).map fun _ _ => congrArg Prod.fst, ?_⟩
    -- a label of an instruction stands before the end
    rintro ⟨label, place⟩ hbefore other hend rfl
    obtain ⟨name, _, heq⟩ := List.mem_map.1 hend
    have hsize : p.instructions.size = place := congrArg Prod.snd heq
    have hlt := place_lt_of_mem_labelPlaces hbefore
    rw [Array.length_toList] at hlt
    omega
  have hnames : ((bindings 0 p.relisted).map Prod.fst).Nodup := by
    refine hpairs.map_on ?_
    rintro ⟨label, place⟩ hmem ⟨label', place'⟩ hmem' rfl
    have hplace := resolve_of_mem_relisted h hmem
    rw [resolve_of_mem_relisted h hmem'] at hplace
    cases hplace
    rfl
  have htable := LabelTable.extend_of_nodup [] (bindings 0 p.relisted) hnames
  refine ⟨⟨(Fold.instructions p.relisted).toArray, bindings 0 p.relisted⟩, ?_, rfl⟩
  rw [ofEntries, htable]
  rfl

/-! ## The program that is read back -/

theorem ops_relisted (p : Program) :
    p.relisted.filterMap Entry.op = p.instructions.toList.map Instruction.op := by
  rw [relisted, ← ops_settle none, settle_relisted, List.map_map]
  rfl

theorem size_reread (hq : ofEntries p.relisted = .ok q) : q.size = p.size := by
  rw [size_ofEntries hq, ← length_filterMap_op, ops_relisted, List.length_map, Array.length_toList,
    size]

theorem resolve_reread (h : ofEntries entries = .ok p) (hq : ofEntries p.relisted = .ok q)
    {label : String} {place : Nat} (hresolve : q.resolve label = some place) :
    p.resolve label = some place :=
  resolve_of_mem_relisted h ((resolve_eq_some_iff hq).1 hresolve)

theorem unresolved_reread (h : ofEntries entries = .ok p) (hq : ofEntries p.relisted = .ok q)
    {label : String} (hnone : p.resolve label = none) : q.resolve label = none := by
  rw [Option.eq_none_iff_forall_ne_some]
  intro place hfound
  rw [resolve_reread h hq hfound] at hnone
  cases hnone

/-- A label that gave way is missing from the listing, but no jump names it any more. -/
theorem resolve_target_reread (h : ofEntries entries = .ok p) (hq : ofEntries p.relisted = .ok q)
    {instruction : Instruction} (hmem : instruction ∈ p.instructions) {target : String}
    (htarget : instruction.op.target? = some target) : q.resolve target = p.resolve target := by
  cases hp : p.resolve target with
  | none => exact unresolved_reread h hq hp
  | some place =>
    rw [resolve_eq_some_iff hq, mem_bindings_relisted]
    rcases Nat.lt_or_eq_of_le (resolve_le_size h hp) with hlt | rfl
    · exact Or.inl (label_of_target h hmem htarget hp hlt)
    · exact Or.inr ⟨(mem_endLabels h).2 hp, rfl⟩

/-- **The jumps of the program that is read back go where those of the program go.** -/
theorem sameJumps_reread (h : ofEntries entries = .ok p) (hq : ofEntries p.relisted = .ok q) :
    SameJumps p q (renamed (aliases none p.relisted)) where
  ops := by rw [ops_ofEntries hq, ops_relisted]
  resolve instruction hmem target htarget := by
    rw [resolve_renamed hq, resolve_target_reread h hq hmem htarget]
  unresolved _ hnone := renamed_of_unresolved hq (unresolved_reread h hq hnone)

/-! ## Names that can be written -/

/-- A program made from entries whose names are labels has only labels for names: folding renames
jumps to names of the entries and makes up none. -/
theorem writable_of_named (h : ofEntries entries = .ok p)
    (hnamed : ∀ entry ∈ entries, entry.Named) : p.Writable := by
  have hbound : ∀ {label place}, p.resolve label = some place → Label.isValid label = true := by
    intro label place hresolve
    obtain ⟨before, entry, after, rfl, hlabel, _⟩ :=
      (mem_bindings _ _).1 ((resolve_eq_some_iff h).1 hresolve)
    exact (hnamed entry (by simp)).label hlabel
  refine ⟨fun instruction hmem label hlabel => ?_, fun instruction hmem target htarget => ?_,
    fun label hmem => hbound ((mem_endLabels h).1 hmem)⟩
  · obtain ⟨place, hget⟩ := List.mem_iff_getElem?.1 hmem
    rw [Array.getElem?_toList] at hget
    exact hbound (resolve_of_label h hget hlabel)
  · cases hresolve : p.resolve target with
    | some place => exact hbound hresolve
    | none =>
      obtain ⟨op, hop, original, horiginal, rfl⟩ :=
        target_of_mem h (Array.mem_def.2 hmem) htarget
      rw [resolve_renamed h] at hresolve
      rw [renamed_of_unresolved h hresolve]
      obtain ⟨entry, hentry, hsome⟩ := List.mem_filterMap.1 hop
      exact (hnamed entry hentry).writable hsome original horiginal

theorem ofListing_ok {text : String} (h : ofListing text = .ok p) :
    ∃ entries, ofEntries entries = .ok p ∧ ∀ entry ∈ entries, Read entry := by
  unfold ofListing at h
  split at h
  · cases h
  · rename_i entries hread
    exact ⟨entries, h, read_of_readLines hread⟩

theorem ofListing_listing (h : p.Writable) : ofListing p.listing = ofEntries p.relisted := by
  rw [ofListing, entries_listing h]

/-- Programs that come from a listing or from a builder. -/
inductive Made (p : Program) : Prop
  | read (text : String) (h : ofListing text = .ok p)
  | built (builder : Builder) (h : builder.build = .ok p)

theorem Made.named (h : Made p) :
    ∃ entries, ofEntries entries = .ok p ∧ ∀ entry ∈ entries, entry.Named := by
  cases h with
  | read text h =>
    obtain ⟨entries, hp, hread⟩ := ofListing_ok h
    exact ⟨entries, hp, fun entry hmem => (hread entry hmem).named⟩
  | built builder h =>
    obtain ⟨hp, hnamed⟩ := Builder.named_of_build h
    exact ⟨builder.entries.toList, hp, hnamed⟩

/-- **A program and the one read back from its listing run alike**, step by step from every
session, and give the same reports on every puzzle. -/
theorem exists_reread_runs_alike (h : Made p) :
    ∃ q, ofListing p.listing = .ok q ∧
      (∀ session n, Machine.trace q n (Machine.start session) =
        Machine.trace p n (Machine.start session)) ∧
      ∀ (puzzle : Puzzle) input limit, puzzle.run? q input limit = puzzle.run? p input limit := by
  obtain ⟨entries, hp, hnamed⟩ := h.named
  obtain ⟨q, hq, -⟩ := ofEntries_relisted hp
  have hjumps := sameJumps_reread hp hq
  refine ⟨q, ?_, fun session n => Machine.trace_eq_of_retarget hjumps n _, ?_⟩
  · rw [ofListing_listing (writable_of_named hp hnamed), hq]
  · intro puzzle input limit
    have hreport : Report.ofEnding q = Report.ofEnding p := by
      funext ending machine
      simp only [Report.ofEnding, size_reread hq]
    rw [Puzzle.run?, Puzzle.run?, Machine.run?_eq_of_retarget hjumps, hreport]

/-- A builder with labels that give way, a comment that looks like other lines and labels of the
end. -/
def commented : Builder :=
  ((⟨#[]⟩ : Builder).mark "a").mark "b"
    |>.pushOp .inbox
    |>.withComment "DEFINE\n-- a:"
    |>.pushOp (.jump (some .zero) "e")
    |>.pushOp (.jump none "a")
    |>.mark "d"
    |>.mark "e"

theorem exists_reread_runs_alike_commented :
    ∃ p, commented.build = .ok p ∧
      ∃ q, ofListing p.listing = .ok q ∧
        (∀ session n, Machine.trace q n (Machine.start session) =
          Machine.trace p n (Machine.start session)) ∧
        ∀ (puzzle : Puzzle) input limit, puzzle.run? q input limit = puzzle.run? p input limit := by
  have hbuild : commented.build = .ok
      ⟨#[⟨.inbox, some "b", some "DEFINE\n-- a:"⟩, ⟨.jump (some .zero) "e", none, none⟩,
        ⟨.jump none "b", none, none⟩], [("a", 0), ("b", 0), ("d", 3), ("e", 3)]⟩ := by
    decide +kernel
  exact ⟨_, hbuild, exists_reread_runs_alike (.built commented hbuild)⟩

/-! ## Listings of listings -/

theorem places_relisted (p : Program) :
    places none p.relisted =
      p.instructions.toList.map Instruction.label ++ [p.endLabels.getLast?] := by
  rw [places, relisted, settle_relisted, leftOver_relisted, List.map_map]
  rfl

/-- Of the labels written at the end the last is the one that jumps are renamed to. -/
theorem getLast_endLabels (hq : ofEntries p.relisted = .ok q) {target : String}
    (hresolve : q.resolve target = some p.size) :
    p.endLabels.getLast? = some (renamed (aliases none p.relisted) target) := by
  have hbound := (resolve_eq_some_iff_bound hq).1 hresolve
  rw [← Nat.zero_add p.size] at hbound
  have hplace := place_of_bound none 0 _ (onePlace_of_ofEntries hq) hbound
  rw [places_relisted, List.getElem?_append_right (by simp [size])] at hplace
  simpa [size] using hplace

/-- Reading a listing renames no jump but those to the end. -/
theorem renamed_target_eq_iff (h : ofEntries entries = .ok p) (hq : ofEntries p.relisted = .ok q)
    {instruction : Instruction} (hmem : instruction ∈ p.instructions) {target : String}
    (htarget : instruction.op.target? = some target) :
    renamed (aliases none p.relisted) target = target ↔
      (p.resolve target = some p.size → p.endLabels.getLast? = some target) := by
  have hsame := resolve_target_reread h hq hmem htarget
  cases hresolve : p.resolve target with
  | none => simp [renamed_of_unresolved hq (hsame.trans hresolve)]
  | some place =>
    rw [hresolve] at hsame
    rcases Nat.lt_or_eq_of_le (resolve_le_size h hresolve) with hlt | rfl
    · -- the label at that place is the target, and the only one the listing has there
      obtain ⟨landing, hget, hlabel⟩ := label_of_target h hmem htarget hresolve hlt
      obtain ⟨other, hother, hrenamed⟩ :=
        label_of_resolve hq hsame (by rw [size_reread hq]; exact hlt)
      have hlabels := label_eq_places hq (by rw [size_reread hq]; exact hlt)
      rw [hother, places_relisted, List.getElem?_append_left (by simpa [size] using hlt),
        List.getElem?_map, Array.getElem?_toList, hget, Option.map_some, Option.map_some,
        hrenamed, hlabel] at hlabels
      simp only [Option.some.injEq] at hlabels
      simp [hlabels, Nat.ne_of_lt hlt]
    · rw [getLast_endLabels hq hsame]
      simp

theorem endLabels_reread (h : ofEntries entries = .ok p) (hq : ofEntries p.relisted = .ok q) :
    q.endLabels = p.endLabels := by
  obtain ⟨q', hq', hlabels⟩ := ofEntries_relisted h
  obtain rfl : q = q' := Except.ok.inj (hq.symm.trans hq')
  have hbefore : (labelPlaces 0 p.instructions.toList).filter
      (fun binding => binding.2 == p.size) = [] := by
    rw [List.filter_eq_nil_iff]
    rintro ⟨label, place⟩ hmem
    have hlt := place_lt_of_mem_labelPlaces hmem
    rw [Array.length_toList] at hlt
    simp only [size, beq_iff_eq]
    omega
  have hend : (p.endLabels.map (·, p.size)).filter (fun binding => binding.2 == p.size) =
      p.endLabels.map (·, p.size) := by
    rw [List.filter_eq_self]
    rintro binding hmem
    obtain ⟨label, _, rfl⟩ := List.mem_map.1 hmem
    exact beq_self_eq_true _
  rw [endLabels, hlabels, size_reread hq, bindings_relisted, List.filter_append, hbefore,
    hend, List.nil_append, List.map_map]
  exact List.map_id _

/-- Every jump to the end names the last of the labels that are written there. -/
def EndsNamed (p : Program) : Prop :=
  ∀ instruction ∈ p.instructions, ∀ target ∈ instruction.op.target?,
    p.resolve target = some p.size → p.endLabels.getLast? = some target

instance (p : Program) : Decidable p.EndsNamed := by
  unfold EndsNamed
  exact inferInstance

theorem endsNamed_reread (h : ofEntries entries = .ok p) (hq : ofEntries p.relisted = .ok q) :
    q.EndsNamed := by
  intro instruction hmem target htarget hresolve
  obtain ⟨op, _, original, _, rfl⟩ := target_of_mem hq hmem htarget
  rw [resolve_renamed hq, size_reread hq] at hresolve
  rw [endLabels_reread h hq, getLast_endLabels hq hresolve]

theorem comment_of_read (h : ofEntries entries = .ok p) (hread : ∀ entry ∈ entries, Read entry) :
    ∀ instruction ∈ p.instructions.toList, instruction.comment = none := by
  rw [(ofEntries_ok h).2, Fold.instructions]
  intro instruction hmem
  obtain ⟨settled, hsettled, rfl⟩ := List.mem_map.1 hmem
  exact comment_settle (fun entry hentry => (hread entry hentry).comment) none settled hsettled

/-- A listing that is read again has the same instructions, without their comments and with the
jumps renamed. -/
theorem instructions_relisted (hq : ofEntries p.relisted = .ok q) :
    q.instructions.toList = p.instructions.toList.map fun instruction =>
      (instruction.retarget (renamed (aliases none p.relisted))).bare := by
  have hsettle : settle none p.relisted = p.instructions.toList.map Instruction.bare :=
    settle_relisted _ _
  rw [(ofEntries_ok hq).2, Fold.instructions, hsettle, List.map_map]
  rfl

theorem instructions_reread (hq : ofEntries p.relisted = .ok q)
    (hcomment : ∀ instruction ∈ p.instructions.toList, instruction.comment = none) :
    q.instructions.toList =
      p.instructions.toList.map (Instruction.retarget (renamed (aliases none p.relisted))) := by
  rw [instructions_relisted hq]
  refine List.map_congr_left fun instruction hmem => ?_
  rw [Instruction.bare, ← hcomment instruction hmem]
  rfl

/-- **A listing is written again as it is exactly if its jumps to the end name the last label
there.**  The writer takes end labels in the order of their first binding, while folding gives way
to the one that stands last. -/
theorem listing_reread_iff (h : ofEntries entries = .ok p) (hread : ∀ entry ∈ entries, Read entry)
    (hq : ofEntries p.relisted = .ok q) (hwritable : q.Writable) :
    q.listing = p.listing ↔ p.EndsNamed := by
  have hp : p.Writable := writable_of_named h fun entry hmem => (hread entry hmem).named
  constructor
  · intro hsame instruction hmem target htarget
    rw [← renamed_target_eq_iff h hq hmem htarget]
    -- equal texts are read as equal operations, so renaming leaves each of them alone
    have hentries := entries_listing hwritable
    rw [hsame, entries_listing hp] at hentries
    have hops := congrArg (List.filterMap Entry.op) (Except.ok.inj hentries)
    rw [ops_relisted, ops_relisted, (sameJumps_reread h hq).ops] at hops
    have hop := List.map_inj_left.1 (hops.symm.trans (List.map_id _).symm) instruction.op
      (List.mem_map_of_mem (Array.mem_def.1 hmem))
    exact Op.retarget_eq_self_iff.1 hop target htarget
  · intro hnamed
    have hinstructions : q.instructions.toList = p.instructions.toList := by
      rw [instructions_reread hq (comment_of_read h hread)]
      refine (List.map_congr_left fun instruction hmem => ?_).trans (List.map_id _)
      have hmem := Array.mem_def.2 hmem
      have hop : instruction.op.retarget (renamed (aliases none p.relisted)) = instruction.op :=
        Op.retarget_eq_self_iff.2 fun target htarget =>
          (renamed_target_eq_iff h hq hmem htarget).2 (hnamed instruction hmem target htarget)
      rw [Instruction.retarget, hop]
      rfl
    rw [listing, listing, listingLines, listingLines, hinstructions, endLabels_reread h hq]

theorem reread_of_ofListing {text : String} (h : ofListing text = .ok p) :
    ∃ q, ofListing p.listing = .ok q ∧ (q.listing = p.listing ↔ p.EndsNamed) ∧ q.EndsNamed := by
  obtain ⟨entries, hp, hread⟩ := ofListing_ok h
  obtain ⟨q, hq, -⟩ := ofEntries_relisted hp
  have hlisting : ofListing p.listing = .ok q := by
    rw [ofListing_listing (writable_of_named hp fun entry hmem => (hread entry hmem).named), hq]
  obtain ⟨entries', hq', hread'⟩ := ofListing_ok hlisting
  have hwritable := writable_of_named hq' fun entry hmem => (hread' entry hmem).named
  exact ⟨q, hlisting, listing_reread_iff hp hread hq hwritable, endsNamed_reread hp hq⟩

/-- **Formatting formatted text.**  The listing of what was read can be read again.  Writing that
gives the same text exactly if every jump to the end names the last label there, and from the
second writing on the text stays as it is. -/
theorem listing_stable_iff {text : String} (h : ofListing text = .ok p) :
    ∃ q, ofListing p.listing = .ok q ∧ (q.listing = p.listing ↔ p.EndsNamed) ∧
      ∃ r, ofListing q.listing = .ok r ∧ r.listing = q.listing := by
  obtain ⟨q, hq, hiff, hnamed⟩ := reread_of_ofListing h
  obtain ⟨r, hr, hiff', _⟩ := reread_of_ofListing hq
  exact ⟨q, hq, hiff, r, hr, hiff'.2 hnamed⟩

theorem listing_stable_iff_aliases :
    ∃ p, ofListing "a: b:\nINBOX -- next\nJUMPZ e\nJUMP a\nd:\ne:" = .ok p ∧ p.EndsNamed ∧
      ∃ q, ofListing p.listing = .ok q ∧ q.listing = p.listing ∧
        ∃ r, ofListing q.listing = .ok r ∧ r.listing = q.listing := by
  have hread : ofListing "a: b:\nINBOX -- next\nJUMPZ e\nJUMP a\nd:\ne:" = .ok
      ⟨#[⟨.inbox, some "b", none⟩, ⟨.jump (some .zero) "e", none, none⟩,
        ⟨.jump none "b", none, none⟩], [("a", 0), ("b", 0), ("d", 3), ("e", 3)]⟩ := by
    decide +kernel
  obtain ⟨q, hq, hiff, hr⟩ := listing_stable_iff hread
  exact ⟨_, hread, by decide, q, hq, hiff.2 (by decide), hr⟩

/-- A label of the end that comes back is written where it first stood.  The jump that names it is
then renamed to the label that is written last. -/
theorem listing_not_stable :
    ∃ p q, ofListing "JUMP b\nb:\na:\nb:" = .ok p ∧ ofListing p.listing = .ok q ∧
      p.listing = "-- MAILROOM PROGRAM --\n\tJUMP\tb\nb:\na:" ∧
      q.listing = "-- MAILROOM PROGRAM --\n\tJUMP\ta\nb:\na:" ∧ q.listing ≠ p.listing :=
  ⟨⟨#[⟨.jump none "b", none, none⟩], [("b", 1), ("a", 1)]⟩,
    ⟨#[⟨.jump none "a", none, none⟩], [("b", 1), ("a", 1)]⟩, rfl, rfl, by decide +kernel,
    by decide +kernel, by decide +kernel⟩

end Program

end Clerk
